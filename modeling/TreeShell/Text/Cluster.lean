import TreeShell.Text.ClusterClass

/-!
# Clusters

A text is split into clusters, each of which a reader takes for one character. Most clusters are one
character. Marks stay with the character before them, the parts of a Hangul syllable stay together,
and so do a carriage return and its line feed, two letters of a flag, pictographs with a joiner
between them, and consonants with a joining sign between them.
-/

namespace TreeShell.Text

/-- Whether two characters in a row are parts of one Hangul syllable. -/
def joinsSyllable (c next : Char) : Bool :=
  (isHangulLead c && (isHangulLead next || isHangulVowel next || isHangulSyllable next)) ||
    ((isHangulVowel c || isOpenSyllable c) && (isHangulVowel next || isHangulTail next)) ||
    ((isHangulTail c || isHangulSyllable c) && isHangulTail next)

/-- Whether a cluster, last character first, ends in a pictograph, marks and a joiner. -/
def awaitsPictograph : List Char → Bool
  | [] => false
  | c :: earlier =>
    c = zeroWidthJoiner && (earlier.dropWhile (inRanges markRanges)).head?.any isPictograph

/-- Whether a cluster, last character first, ends in a consonant and marks, among them a joining
sign. -/
def awaitsConsonant (cluster : List Char) : Bool :=
  (cluster.takeWhile isMark).any joiningSigns.contains &&
    (cluster.dropWhile isMark).head?.any isConsonant

/-- Whether a cluster, last character first, ends in a letter that still lacks the other letter of a
flag. -/
def awaitsFlagLetter (cluster : List Char) : Bool :=
  (cluster.takeWhile isFlagLetter).length % 2 = 1

/-- Whether the character `next` belongs to the cluster before it, given last character first. -/
def belongsTo (next : Char) : List Char → Bool
  | [] => true
  | c :: earlier =>
    let cluster := c :: earlier
    if c = '\r' ∧ next = '\n' then true
    else if isControl c || isControl next then false
    else
      joinsSyllable c next || isMark next || isLeading c ||
        (awaitsConsonant cluster && isConsonant next) ||
        (awaitsPictograph cluster && isPictograph next) ||
        (awaitsFlagLetter cluster && isFlagLetter next)

/-- The clusters of a text behind the cluster that has been begun, given last character first. -/
def clustersFrom (cluster : List Char) : List Char → List (List Char)
  | [] => if cluster.isEmpty then [] else [cluster.reverse]
  | c :: cs =>
    if belongsTo c cluster then clustersFrom (c :: cluster) cs
    else cluster.reverse :: clustersFrom [c] cs

/-- The clusters of a text. -/
def clusters (cs : List Char) : List (List Char) := clustersFrom [] cs

end TreeShell.Text
