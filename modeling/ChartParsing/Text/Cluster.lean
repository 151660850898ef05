import ChartParsing.Text.ClusterBreak

/-!
# Clusters of a text

A text is cut into clusters from its start, each as long as the rules about neighbouring
characters keep it together.

**Results.** Put together again the clusters are the text (`flatten_clusters`).
-/

namespace ChartParsing
namespace Text

/-- Whether one character goes on with the Korean syllable that the other is part of. -/
def joinsSyllable (p c : Char) : Bool :=
  match Hangul.ofChar? p, Hangul.ofChar? c with
  | some x, some y => x.joins y
  | _, _ => false

/-- Whether a text ends in a consonant and the signs of a conjunct, a linker among them.  The
text is given last character first. -/
def endsInLinkedConsonant (text : List Char) : Bool :=
  (text.takeWhile isConjunctMark).any isLinker &&
    (text.dropWhile isConjunctMark).head?.any isConsonant

/-- Whether a text ends in a pictograph and what extends it.  The text is given last character
first. -/
def endsInPictograph (text : List Char) : Bool :=
  (text.dropWhile isExtend).head?.any isPictograph

/-- Whether a text ends in a region indicator that has no partner yet.  The text is given last
character first. -/
def endsInHalfFlag (text : List Char) : Bool :=
  (text.takeWhile isRegionalIndicator).length % 2 == 1

/-- Whether a character belongs to the cluster before it, whose characters are given last
first. -/
def joinsCluster : List Char → Char → Bool
  | [], _ => false
  | p :: before, c =>
      if isControl p || isControl c then
        p == '\r' && c == '\n'
      else
        isExtend c || c == joiner || isSpacingMark c || isPrepend p || joinsSyllable p c ||
          (isConsonant c && endsInLinkedConsonant (p :: before)) ||
          (isPictograph c && p == joiner && endsInPictograph before) ||
          (isRegionalIndicator c && endsInHalfFlag (p :: before))

/-- The clusters of a text after the given characters of the first of them, last first. -/
def clustersFrom (cluster : List Char) : List Char → List (List Char)
  | [] => [cluster.reverse]
  | c :: cs =>
      if joinsCluster cluster c then clustersFrom (c :: cluster) cs
      else cluster.reverse :: clustersFrom [c] cs

/-- The clusters of a text, in order. -/
def clusters : List Char → List (List Char)
  | [] => []
  | c :: cs => clustersFrom [c] cs

theorem flatten_clustersFrom
    (cluster cs : List Char) :
    (clustersFrom cluster cs).flatten = cluster.reverse ++ cs := by
  induction cs generalizing cluster with
  | nil => simp [clustersFrom]
  | cons c cs ih =>
      rw [clustersFrom]
      split
      · simp [ih]
      · simp [ih]

/-- The clusters hold every character of the text, in order. -/
@[simp] theorem flatten_clusters
    (cs : List Char) :
    (clusters cs).flatten = cs := by
  cases cs with
  | nil => rfl
  | cons c cs => simp [clusters, flatten_clustersFrom]

end Text
end ChartParsing
