import CommissionRules.Number.Arithmetic

/-!
# Similarity of words

How much of one word is found in another at about the same place, as a number from 0 to 1.  Equal
characters are paired up if they stand close to each other; the similarity is the mean of the
share of the first word that has partners, the share of the second one, and the share of the pairs
that come in the same order in both words.
-/

namespace CommissionRules.Text

/-- How far apart the two characters of a pair may stand. -/
def pairingRange (a b : List Char) : Nat := max a.length b.length / 2 - 1

/-- The first place near `i` in `b` that holds `c` and is not taken. -/
def partner? (range : Nat) (b : List Char) (taken : List Nat) (i : Nat) (c : Char) : Option Nat :=
  (List.range (min b.length (i + range + 1))).find? fun j =>
    i - range ≤ j && b[j]? == some c && !taken.contains j

/-- The characters that find a partner in `b`, each with the partner's place.  The first of the
characters stands at place `i`. -/
def pairsFrom (range : Nat) (b : List Char) (i : Nat) (taken : List Nat) :
    List Char → List (Char × Nat)
  | [] => []
  | c :: rest =>
      match partner? range b taken i c with
      | some j => (c, j) :: pairsFrom range b (i + 1) (j :: taken) rest
      | none => pairsFrom range b (i + 1) taken rest

def pairs (a b : List Char) : List (Char × Nat) := pairsFrom (pairingRange a b) b 0 [] a

/-- The characters of `b` that are partners, in their own order. -/
def partners (pairs : List (Char × Nat)) (b : List Char) : List Char :=
  (b.zipIdx.filter fun (_, j) => (pairs.map (·.2)).contains j).map (·.1)

/-- Half the number of places at which the paired characters differ when both words are read in
order. -/
def transpositions (pairs : List (Char × Nat)) (b : List Char) : Nat :=
  ((pairs.map (·.1)).zip (partners pairs b)).countP (fun (c, d) => c != d) / 2

def similarity (a b : String) : Number :=
  let a := a.toList
  let b := b.toList
  if a.isEmpty && b.isEmpty then .ofNat 1
  else
    let found := pairs a b
    let count := found.length
    let share (n m : Nat) : Number := (Number.ofNat n).div (.ofNat m)
    if count == 0 then .zero
    else
      (((share count a.length).add (share count b.length)).add
        (share (count - transpositions found b) count)).div (.ofNat 3)

/-- The words that are more than seven tenths similar to the given one, the most similar ones
last. -/
def similarWords (word : String) (words : List String) : List String :=
  let scored := words.map fun other => (similarity word other, other)
  ((scored.filter fun (score, _) => (Number.ofDecimal false 7 (-1)).lt score).mergeSort
    fun a b => !b.1.lt a.1).map (·.2)

end CommissionRules.Text
