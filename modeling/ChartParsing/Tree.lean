/-!
# Parse trees

A parse tree is binary above its leaves: a leaf is a symbol over one word, and a node is a
symbol over two trees.
-/

namespace ChartParsing

/-- A parse tree over names of symbols and words. -/
inductive Tree
  | leaf (symbol : String) (word : String)
  | node (symbol : String) (left right : Tree)
  deriving DecidableEq, Repr

namespace Tree

/-- The symbol at the root. -/
def symbol : Tree → String
  | leaf symbol _ => symbol
  | node symbol _ _ => symbol

/-- The words at the leaves, from left to right. -/
def words : Tree → List String
  | leaf _ word => [word]
  | node _ left right => left.words ++ right.words

/-- The tree in brackets, each symbol in front of what it stands over. -/
def text : Tree → String
  | leaf symbol word => "[" ++ symbol ++ " " ++ word ++ "]"
  | node symbol left right => "[" ++ symbol ++ " " ++ left.text ++ " " ++ right.text ++ "]"

end Tree
end ChartParsing
