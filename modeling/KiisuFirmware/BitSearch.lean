import Mathlib.Tactic

/-!
# Searching a set of words bit by bit

A search goes down a set of words of one length. Where the words part it takes a side: before its
last discrepancy that of the word it has found before, at it the ones, and behind it the zeros; the
last place where it has taken the zeros is its next discrepancy (`descend`). Searches one after the
other find all words, in order (`found`), until there is no discrepancy left.
-/

namespace KiisuFirmware

namespace BitSearch

/-- What follows this bit in the words that begin with it. -/
def tails (bit : Bool) (words : List (List Bool)) : List (List Bool) :=
  words.filterMap fun word => if word.head? = some bit then some word.tail else none

/-- The words part at their first bit. -/
def Mixed (words : List (List Bool)) : Prop := tails false words ≠ [] ∧ tails true words ≠ []

instance (words : List (List Bool)) : Decidable (Mixed words) := inferInstanceAs (Decidable (_ ∧ _))

/-- A word with its discrepancy, behind a bit. -/
def extend (bit mixed : Bool) (found : List Bool × ℕ) : List Bool × ℕ :=
  (bit :: found.1, if found.2 ≠ 0 then found.2 + 1 else if mixed && !bit then 1 else 0)

/-- The bit that a search takes. -/
def direction (words : List (List Bool)) (discrepancy : ℕ) (saved : List Bool) : Bool :=
  if Mixed words then
    if 1 < discrepancy then saved.headD false else decide (discrepancy = 1)
  else decide (tails false words = [])

/-- One search among words of a length. Bits are counted from one on. -/
def descend : ℕ → List (List Bool) → ℕ → List Bool → List Bool × ℕ
  | 0, _, _, _ => ([], 0)
  | n + 1, words, discrepancy, saved =>
    extend (direction words discrepancy saved) (decide (Mixed words))
      (descend n (tails (direction words discrepancy saved) words) (discrepancy - 1) saved.tail)

/-- The words in order, each with the discrepancy at which a search has found it. -/
def found : ℕ → List (List Bool) → List (List Bool × ℕ)
  | 0, words => if words = [] then [] else [([], 0)]
  | n + 1, words =>
    (found n (tails false words)).map (extend false (decide (Mixed words))) ++
      (found n (tails true words)).map (extend true (decide (Mixed words)))

/-! ## The words -/

section Words

variable {bit mixed : Bool} {words : List (List Bool)} {word : List Bool} {n : ℕ}

theorem mem_tails : word ∈ tails bit words ↔ bit :: word ∈ words := by
  rw [tails, List.mem_filterMap]
  constructor
  · rintro ⟨whole, hmem, hif⟩
    rcases whole with _ | ⟨first, rest⟩
    · simp at hif
    · simp only [List.head?_cons, Option.some.injEq, List.tail_cons] at hif
      split_ifs at hif with hfirst
      cases hif
      exact hfirst ▸ hmem
  · intro hmem
    exact ⟨_, hmem, by simp⟩

theorem length_of_mem_tails (h : ∀ word ∈ words, word.length = n + 1) :
    ∀ word ∈ tails bit words, word.length = n := fun _ hmem =>
  Nat.succ_injective (h _ (mem_tails.1 hmem))

theorem tails_ne_nil (hne : words ≠ []) (h : ∀ word ∈ words, word.length = n + 1)
    (hnil : tails bit words = []) : tails (!bit) words ≠ [] := by
  obtain ⟨word, hmem⟩ := List.exists_mem_of_ne_nil words hne
  rcases word with _ | ⟨first, rest⟩
  · exact absurd (h _ hmem) (by simp)
  have hfirst : first = !bit := Bool.eq_not_of_ne fun heq => by
    have hnone := hnil ▸ mem_tails.2 (heq ▸ hmem)
    exact absurd hnone List.not_mem_nil
  exact List.ne_nil_of_mem (mem_tails.2 (hfirst ▸ hmem))

theorem tails_direction_ne_nil (hne : words ≠ []) (h : ∀ word ∈ words, word.length = n + 1)
    (discrepancy : ℕ) (saved : List Bool) : tails (direction words discrepancy saved) words ≠ [] := by
  by_cases hmixed : Mixed words
  · rcases direction words discrepancy saved with _ | _
    · exact hmixed.1
    · exact hmixed.2
  · rw [direction, if_neg hmixed]
    by_cases hzeros : tails false words = []
    · rw [decide_eq_true hzeros]
      exact tails_ne_nil hne h hzeros
    · rw [decide_eq_false hzeros]
      exact hzeros

theorem map_fst_extend (found : List (List Bool × ℕ)) :
    (found.map (extend bit mixed)).map Prod.fst = (found.map Prod.fst).map (bit :: ·) := by
  rw [List.map_map, List.map_map]
  rfl

theorem mem_found : ∀ {n : ℕ} {words : List (List Bool)}, (∀ word ∈ words, word.length = n) →
    ∀ {word : List Bool}, word ∈ (found n words).map Prod.fst ↔ word ∈ words
  | 0, words, hlength, word => by
    rw [found]
    rcases words with _ | ⟨first, rest⟩
    · simp
    · have hnil (word : List Bool) (hmem : word ∈ first :: rest) : word = [] :=
        List.length_eq_zero_iff.1 (hlength word hmem)
      rw [if_neg (by simp), List.map_singleton, List.mem_singleton]
      constructor
      · rintro rfl
        rw [hnil first List.mem_cons_self]
        exact List.mem_cons_self
      · exact hnil word
  | n + 1, words, hlength, word => by
    rw [found, List.map_append, map_fst_extend, map_fst_extend, List.mem_append, List.mem_map,
      List.mem_map]
    simp only [mem_found (length_of_mem_tails hlength), mem_tails]
    constructor
    · rintro (⟨rest, hmem, rfl⟩ | ⟨rest, hmem, rfl⟩) <;> exact hmem
    · intro hmem
      rcases word with _ | ⟨_ | _, rest⟩
      · exact absurd (hlength _ hmem) (by simp)
      · exact .inl ⟨rest, hmem, rfl⟩
      · exact .inr ⟨rest, hmem, rfl⟩

theorem nodup_found : ∀ (n : ℕ) (words : List (List Bool)), ((found n words).map Prod.fst).Nodup
  | 0, words => by
    rw [found]
    split_ifs <;> simp
  | n + 1, words => by
    rw [found, List.map_append, map_fst_extend, map_fst_extend]
    refine List.Nodup.append ?_ ?_ ?_
    · exact (nodup_found n _).map fun _ _ h => (List.cons.inj h).2
    · exact (nodup_found n _).map fun _ _ h => (List.cons.inj h).2
    · intro word hzero hone
      obtain ⟨rest, -, rfl⟩ := List.mem_map.1 hzero
      obtain ⟨rest', -, heq⟩ := List.mem_map.1 hone
      exact absurd (List.cons.inj heq).1 (by simp)

theorem found_perm (hlength : ∀ word ∈ words, word.length = n) (hnodup : words.Nodup) :
    ((found n words).map Prod.fst).Perm words :=
  (List.perm_ext_iff_of_nodup (nodup_found n words) hnodup).2 fun _ => mem_found hlength

end Words

/-! ## The searches -/

section Searches

variable {words : List (List Bool)} {n : ℕ}

/-- A search from a word that has been found with a discrepancy. -/
def Next (n : ℕ) (words : List (List Bool)) (found next : List Bool × ℕ) : Prop :=
  found.2 ≠ 0 ∧ descend n words found.2 found.1 = next

/-- The first search finds the first word, each other one the next word, and the last word has no
discrepancy. -/
structure Searched (n : ℕ) (words : List (List Bool)) : Prop where
  ne_nil : found n words ≠ []
  first : ∀ saved, (found n words).head? = some (descend n words 0 saved)
  next : (found n words).IsChain (Next n words)
  last : ∀ final ∈ (found n words).getLast?, final.2 = 0

theorem found_nil : ∀ n : ℕ, found n [] = []
  | 0 => rfl
  | n + 1 => by
    rw [found]
    have htails (bit : Bool) : tails bit [] = [] := rfl
    rw [htails, htails, found_nil n]
    rfl

theorem Next.extend {bit : Bool} {a b : List Bool × ℕ} (h : Next n (tails bit words) a b)
    (hmixed : ¬Mixed words → bit = decide (tails false words = [])) :
    Next (n + 1) words (BitSearch.extend bit (decide (Mixed words)) a)
      (BitSearch.extend bit (decide (Mixed words)) b) := by
  obtain ⟨hne, rfl⟩ := h
  have hdiscrepancy : (BitSearch.extend bit (decide (Mixed words)) a).2 = a.2 + 1 := if_pos hne
  have hdirection : direction words (a.2 + 1) (bit :: a.1) = bit := by
    rw [direction]
    split_ifs with hm hlt
    · rfl
    · omega
    · exact (hmixed hm).symm
  refine ⟨by rw [hdiscrepancy]; omega, ?_⟩
  rw [hdiscrepancy]
  show descend (n + 1) words (a.2 + 1) (bit :: a.1) = _
  rw [descend, hdirection]
  rfl

theorem Searched.isChain_extend {bit : Bool} (h : Searched n (tails bit words))
    (hmixed : ¬Mixed words → bit = decide (tails false words = [])) :
    ((found n (tails bit words)).map (extend bit (decide (Mixed words)))).IsChain
      (Next (n + 1) words) :=
  List.isChain_map_of_isChain _ (fun _ _ hnext => hnext.extend hmixed) h.next

/-- A search without a discrepancy goes to the first word of the side it takes. -/
theorem Searched.head?_extend {bit : Bool} (h : Searched n (tails bit words)) {discrepancy : ℕ}
    {saved : List Bool} (hbit : direction words discrepancy saved = bit) (hle : discrepancy ≤ 1) :
    ((found n (tails bit words)).map (extend bit (decide (Mixed words)))).head? =
      some (descend (n + 1) words discrepancy saved) := by
  rw [List.head?_map, h.first saved.tail, descend, hbit, Nat.sub_eq_zero_of_le hle]
  rfl

theorem Searched.getLast?_extend {bit : Bool} (h : Searched n (tails bit words))
    {final : List Bool × ℕ}
    (hfinal : final ∈
      ((found n (tails bit words)).map (extend bit (decide (Mixed words)))).getLast?) :
    ∃ rest, final = (bit :: rest, if decide (Mixed words) && !bit then 1 else 0) := by
  rw [List.getLast?_map] at hfinal
  obtain ⟨f, hf, rfl⟩ := Option.map_eq_some_iff.1 hfinal
  exact ⟨f.1, by rw [extend, h.last f hf]; rfl⟩

theorem Searched.of_tails_eq_nil {bit : Bool} (hnil : tails (!bit) words = [])
    (hbit : bit = decide (tails false words = [])) (h : Searched n (tails bit words)) :
    Searched (n + 1) words := by
  have hmixed : ¬Mixed words := fun hm => by
    cases bit
    · exact hm.2 hnil
    · exact hm.1 hnil
  have hfound : found (n + 1) words =
      (found n (tails bit words)).map (extend bit (decide (Mixed words))) := by
    rw [found]
    cases bit
    · rw [show tails true words = [] from hnil, found_nil, List.map_nil, List.append_nil]
    · rw [show tails false words = [] from hnil, found_nil, List.map_nil, List.nil_append]
  have hdirection (saved : List Bool) : direction words 0 saved = bit :=
    (if_neg hmixed).trans hbit.symm
  constructor
  · rw [hfound]
    simpa using h.ne_nil
  · intro saved
    rw [hfound, h.head?_extend (hdirection saved) (Nat.zero_le 1)]
  · rw [hfound]
    exact h.isChain_extend fun _ => hbit
  · intro final hfinal
    rw [hfound] at hfinal
    obtain ⟨rest, rfl⟩ := h.getLast?_extend hfinal
    rw [decide_eq_false hmixed]
    rfl

theorem searched : ∀ {n : ℕ} {words : List (List Bool)}, words ≠ [] →
    (∀ word ∈ words, word.length = n) → Searched n words
  | 0, words, hne, _ => by
    have hfound : found 0 words = [([], 0)] := if_neg hne
    constructor
    · rw [hfound]
      simp
    · intro saved
      rw [hfound]
      rfl
    · rw [hfound]
      exact List.isChain_singleton _
    · intro final hfinal
      rw [hfound] at hfinal
      cases hfinal
      rfl
  | n + 1, words, hne, hlength => by
    by_cases hzeros : tails false words = []
    · exact .of_tails_eq_nil (show tails (!true) words = [] from hzeros)
        (decide_eq_true hzeros).symm
        (searched (tails_ne_nil hne hlength hzeros) (length_of_mem_tails hlength))
    by_cases hones : tails true words = []
    · exact .of_tails_eq_nil (show tails (!false) words = [] from hones)
        (decide_eq_false hzeros).symm
        (searched hzeros (length_of_mem_tails hlength))
    have hmixed : Mixed words := ⟨hzeros, hones⟩
    have hzero := searched hzeros (length_of_mem_tails hlength)
    have hone := searched hones (length_of_mem_tails hlength)
    have hfirst (saved : List Bool) : direction words 0 saved = false := if_pos hmixed
    have hturn (saved : List Bool) : direction words 1 saved = true := if_pos hmixed
    constructor
    · rw [found]
      simpa using fun h => absurd h hzero.ne_nil
    · intro saved
      rw [found, List.head?_append, hzero.head?_extend (hfirst saved) (Nat.zero_le 1)]
      rfl
    · rw [found]
      refine (hzero.isChain_extend fun h => absurd hmixed h).append
        (hone.isChain_extend fun h => absurd hmixed h) ?_
      -- the last of the zeros has the discrepancy of this bit
      intro final hfinal next hnext
      obtain ⟨rest, rfl⟩ := hzero.getLast?_extend hfinal
      rw [hone.head?_extend (hturn (false :: rest)) le_rfl] at hnext
      cases hnext
      rw [decide_eq_true hmixed]
      exact ⟨Nat.one_ne_zero, rfl⟩
    · intro final hfinal
      rw [found, List.getLast?_append_of_ne_nil _ (by simpa using hone.ne_nil)] at hfinal
      obtain ⟨rest, rfl⟩ := hone.getLast?_extend hfinal
      rw [Bool.not_true, Bool.and_false]
      rfl

end Searches

end BitSearch

end KiisuFirmware
