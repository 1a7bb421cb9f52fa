import KiisuFirmware.FlipperFormat
import KiisuFirmware.Proofs.StreamClient

/-!
# Which line is read

What the functions of `flipper_format_stream.c` give back is on the line of the key, unless the
delimiter is the last character of that line: two characters are skipped behind a key, and then
the second of them is the line feed.
-/

namespace KiisuFirmware

variable {σ τ α β : Type} {v : StreamVTable σ} {R : σ → File → Prop}

namespace FlipperText

open FlipperFormatStream

theorem restOfLine_append {before : List UInt8} (h : flipperFormatEoln ∉ before)
    (bytes : List UInt8) : restOfLine (before ++ bytes) = before ++ restOfLine bytes := by
  unfold restOfLine
  rw [List.takeWhile_append_of_pos]
  intro c hc
  simpa using fun heq : c = flipperFormatEoln => h (heq ▸ hc)

theorem restOfLine_of_not_mem {bytes : List UInt8} (h : flipperFormatEoln ∉ bytes) :
    restOfLine bytes = bytes := by
  have hline := restOfLine_append h []
  rw [List.append_nil] at hline
  exact hline.trans (List.append_nil bytes)

theorem restOfLine_eoln (bytes : List UInt8) : restOfLine (flipperFormatEoln :: bytes) = [] := by
  simp [restOfLine]

theorem restOfLine_cons {c : UInt8} (h : c ≠ flipperFormatEoln) (bytes : List UInt8) :
    restOfLine (c :: bytes) = c :: restOfLine bytes := by
  simp [restOfLine, h]

/-! ## Words -/

theorem wordsFrom_spaces {spaces : List UInt8} (h : ∀ c ∈ spaces, isSpace c = true)
    (inWord : Bool) (hne : spaces = [] → inWord = false) (line : List UInt8) :
    wordsFrom inWord (spaces ++ line) = wordCount line := by
  induction spaces generalizing inWord with
  | nil =>
    rw [hne rfl]
    rfl
  | cons c spaces ih =>
    rw [List.cons_append, wordsFrom, if_pos (h c List.mem_cons_self)]
    exact ih (fun c hc => h c (List.mem_cons_of_mem _ hc)) false fun _ => rfl

theorem wordsFrom_word {word : List UInt8} (h : ∀ c ∈ word, isSpace c = false)
    (line : List UInt8) : wordsFrom true (word ++ line) = wordsFrom true line := by
  induction word with
  | nil => rfl
  | cons c word ih =>
    rw [List.cons_append, wordsFrom, if_neg (by rw [h c List.mem_cons_self]; simp), if_pos rfl,
      Nat.zero_add]
    exact ih fun c hc => h c (List.mem_cons_of_mem _ hc)

/-- A line up to the next word: the spaces in front, the word, and the spaces behind it. -/
structure FirstWord (spaces word trailing line : List UInt8) : Prop where
  leads : ∀ c ∈ spaces, isSpace c = true
  letters : ∀ c ∈ word, isSpace c = false
  nonempty : word ≠ []
  trails : ∀ c ∈ trailing, isSpace c = true
  separate : trailing = [] → line = []
  next : ∀ c ∈ line.head?, isSpace c = false

section FirstWord

variable {spaces word trailing line : List UInt8}

theorem FirstWord.nextWord (h : FirstWord spaces word trailing line) :
    nextWord (spaces ++ (word ++ (trailing ++ line))) = some (word, line) := by
  obtain ⟨c, word', hword⟩ := List.exists_cons_of_ne_nil h.nonempty
  have hc : isSpace c = false := h.letters c (by rw [hword]; exact List.mem_cons_self)
  have hspaces : (spaces ++ (word ++ (trailing ++ line))).dropWhile isSpace =
      word ++ (trailing ++ line) := by
    rw [List.dropWhile_append_of_pos h.leads, hword, List.cons_append,
      List.dropWhile_cons_of_neg (by rw [hc]; simp)]
  have htrailing : (trailing ++ line).takeWhile (!isSpace ·) = [] ∧
      (trailing ++ line).dropWhile (!isSpace ·) = trailing ++ line := by
    cases htrail : trailing with
    | nil =>
      rw [h.separate htrail]
      exact ⟨rfl, rfl⟩
    | cons d trailing' =>
      have hd : isSpace d = true := h.trails d (by rw [htrail]; exact List.mem_cons_self)
      simp [hd]
  have hline : (trailing ++ line).dropWhile isSpace = line := by
    rw [List.dropWhile_append_of_pos h.trails]
    cases hl : line with
    | nil => rfl
    | cons d line' =>
      have hd : isSpace d = false := h.next d (by rw [hl]; rfl)
      rw [List.dropWhile_cons_of_neg (by rw [hd]; simp)]
  have hnot : ∀ d ∈ word, (!isSpace d) = true := fun d hd => by rw [h.letters d hd]; rfl
  unfold FlipperText.nextWord
  rw [hspaces]
  rw [hword] at hnot ⊢
  simp only [List.cons_append]
  rw [← List.cons_append, List.takeWhile_append_of_pos hnot, List.dropWhile_append_of_pos hnot,
    htrailing.1, htrailing.2, hline, List.append_nil]

theorem FirstWord.wordCount (h : FirstWord spaces word trailing line) :
    wordCount (spaces ++ (word ++ (trailing ++ line))) = wordCount line + 1 := by
  obtain ⟨c, word', hword⟩ := List.exists_cons_of_ne_nil h.nonempty
  have hc : isSpace c = false := h.letters c (by rw [hword]; exact List.mem_cons_self)
  have hword' : ∀ d ∈ word', isSpace d = false := fun d hd =>
    h.letters d (by rw [hword]; exact List.mem_cons_of_mem _ hd)
  have hbegin : wordsFrom false (word ++ (trailing ++ line)) =
      1 + wordsFrom true (word' ++ (trailing ++ line)) := by
    rw [hword, List.cons_append, wordsFrom, if_neg (by rw [hc]; simp)]
    rfl
  rw [FlipperText.wordCount, wordsFrom_spaces h.leads false fun _ => rfl, FlipperText.wordCount,
    hbegin, wordsFrom_word hword', Nat.add_comm]
  congr 1
  by_cases htrail : trailing = []
  · rw [htrail, h.separate htrail]
    rfl
  · exact wordsFrom_spaces h.trails true (fun hnil => absurd hnil htrail) line

end FirstWord

theorem wordsFrom_le (inWord : Bool) : ∀ line, wordsFrom inWord line ≤ line.length
  | [] => Nat.zero_le _
  | c :: line => by
    have hspace := wordsFrom_le false line
    have hword := wordsFrom_le true line
    rw [wordsFrom, List.length_cons]
    split_ifs <;> omega

end FlipperText

namespace FlipperFormatStream

open FlipperText

/-! ## Keys, words and lines -/

/-- The key is what the text ends with, on one line and without carriage returns. -/
def EndsWithKey (head key : List UInt8) : Prop :=
  ∃ line, line <:+ head ∧ flipperFormatEoln ∉ line ∧ line.filter (· ≠ flipperFormatEolr) = key

theorem EndsWithKey.append {head key : List UInt8} (h : EndsWithKey head key)
    (before : List UInt8) : EndsWithKey (before ++ head) key := by
  obtain ⟨line, hline, hkey⟩ := h
  exact ⟨line, hline.trans (List.suffix_append _ _), hkey⟩

theorem EndsWithKey.snoc {head key : List UInt8} (h : EndsWithKey head key) {data : UInt8}
    (hdata : data ≠ flipperFormatEoln) :
    EndsWithKey (head ++ [data]) (key ++ if data = flipperFormatEolr then [] else [data]) := by
  obtain ⟨line, ⟨before, rfl⟩, hfree, rfl⟩ := h
  refine ⟨line ++ [data], ⟨before, (List.append_assoc _ _ _).symm⟩, ?_, ?_⟩
  · rw [List.mem_append, List.mem_singleton, not_or]
    exact ⟨hfree, Ne.symm hdata⟩
  · rw [List.filter_append]
    split_ifs with hreturn <;> simp [hreturn]

/-- What has been gone over ends with the key that has been collected, as long as it is. -/
def Collected (before : List UInt8) (t : KeyScan) : Prop :=
  t.accumulate = true → EndsWithKey before t.key

theorem Collected.start (before : List UInt8) : Collected before .start :=
  fun _ => ⟨[], List.nil_suffix, List.not_mem_nil, rfl⟩

theorem Collected.step {before : List UInt8} {t : KeyScan} {data : UInt8}
    (h : Collected before t) (hstop : keyScanner.stops t data = false) :
    Collected (before ++ [data]) (keyScanner.step t data) := by
  simp only [keyScanner] at hstop ⊢
  by_cases heoln : data = flipperFormatEoln
  · rw [if_pos heoln]
    exact .start _
  rw [if_neg heoln]
  by_cases heolr : data = flipperFormatEolr
  · rw [if_pos heolr]
    intro haccumulate
    have hsnoc := (h haccumulate).snoc heoln
    rwa [if_pos heolr, List.append_nil] at hsnoc
  rw [if_neg heolr]
  split_ifs with hcomment hdelimiter hline haccumulate
  · exact nofun
  · exact nofun
  · intro haccumulate
    simp [hdelimiter, haccumulate, hline] at hstop
  · intro
    have hsnoc := (h haccumulate).snoc heoln
    rwa [if_neg heolr] at hsnoc
  · exact fun h => absurd h haccumulate

/-- The value that has been collected is the first word of what has been gone over. -/
structure Scanned (before : List UInt8) (t : ValueScan) : Prop where
  free : flipperFormatEoln ∉ before
  leading : t.state = .leadingSpace → t.value = [] ∧ ∀ c ∈ before, isSpace c = true
  reading : t.state = .readValue → t.value ≠ [] ∧ (∀ c ∈ t.value, isSpace c = false) ∧
    ∃ spaces, before = spaces ++ t.value ∧ ∀ c ∈ spaces, isSpace c = true
  trailing : t.state = .trailingSpace → t.value ≠ [] ∧ (∀ c ∈ t.value, isSpace c = false) ∧
    ∃ spaces trailing, before = spaces ++ (t.value ++ trailing) ∧ trailing ≠ [] ∧
      (∀ c ∈ spaces, isSpace c = true) ∧ ∀ c ∈ trailing, isSpace c = true

theorem Scanned.start : Scanned [] ⟨.leadingSpace, []⟩ :=
  ⟨List.not_mem_nil, fun _ => ⟨rfl, nofun⟩, nofun, nofun⟩

theorem ne_eoln_of_isSpace {data : UInt8} (h : isSpace data = true) : data ≠ flipperFormatEoln := by
  rintro rfl
  cases h

theorem Scanned.step {before : List UInt8} {t : ValueScan} {data : UInt8} (h : Scanned before t)
    (hstop : valueScanner.stops t data = false) :
    Scanned (before ++ [data]) (valueScanner.step t data) := by
  obtain ⟨state, value⟩ := t
  have hspaces : ∀ {spaces : List UInt8}, (∀ c ∈ spaces, isSpace c = true) →
      isSpace data = true → ∀ c ∈ spaces ++ [data], isSpace c = true := by
    intro spaces hall hspace c hc
    rcases List.mem_append.1 hc with hc | hc
    · exact hall c hc
    · rw [List.mem_singleton.1 hc]
      exact hspace
  have hfree : data ≠ flipperFormatEoln → flipperFormatEoln ∉ before ++ [data] := by
    intro hdata
    rw [List.mem_append, List.mem_singleton, not_or]
    exact ⟨h.free, Ne.symm hdata⟩
  by_cases hspace : isSpace data = true
  · have hne := hfree (ne_eoln_of_isSpace hspace)
    cases state with
    | leadingSpace =>
      simp only [valueScanner, hspace, if_true]
      obtain ⟨hvalue, hall⟩ := h.leading rfl
      exact ⟨hne, fun _ => ⟨hvalue, hspaces hall hspace⟩, nofun, nofun⟩
    | readValue =>
      simp only [valueScanner, hspace, if_true]
      obtain ⟨hvalue, hword, spaces, hbefore, hall⟩ := h.reading rfl
      refine ⟨hne, nofun, nofun, fun _ => ⟨hvalue, hword, spaces, [data], ?_, by simp, hall, ?_⟩⟩
      · rw [hbefore, List.append_assoc]
      · exact fun c hc => by rwa [List.mem_singleton.1 hc]
    | trailingSpace =>
      simp only [valueScanner]
      obtain ⟨hvalue, hword, spaces, trailing, hbefore, -, hall, htrailing⟩ := h.trailing rfl
      refine ⟨hne, nofun, nofun, fun _ => ⟨hvalue, hword, spaces, trailing ++ [data], ?_, by simp,
        hall, hspaces htrailing hspace⟩⟩
      rw [hbefore, List.append_assoc, List.append_assoc]
  · rw [Bool.not_eq_true] at hspace
    cases state with
    | leadingSpace =>
      have hdata : data ≠ flipperFormatEoln := by simpa [valueScanner, hspace] using hstop
      simp only [valueScanner, hspace, Bool.false_eq_true, if_false]
      obtain ⟨rfl, hall⟩ := h.leading rfl
      refine ⟨hfree hdata, nofun, fun _ => ⟨by simp, ?_, before, rfl, hall⟩, nofun⟩
      exact fun c hc => by rwa [List.mem_singleton.1 hc]
    | readValue =>
      have hdata : data ≠ flipperFormatEoln := by simpa [valueScanner, hspace] using hstop
      simp only [valueScanner, hspace, Bool.false_eq_true, if_false]
      obtain ⟨hvalue, hword, spaces, hbefore, hall⟩ := h.reading rfl
      refine ⟨hfree hdata, nofun, fun _ => ⟨by simp, ?_, spaces, ?_, hall⟩, nofun⟩
      · intro c hc
        rcases List.mem_append.1 hc with hc | hc
        · exact hword c hc
        · rwa [List.mem_singleton.1 hc]
      · rw [hbefore, List.append_assoc]
    | trailingSpace => simp [valueScanner, hspace] at hstop

theorem Scanned.firstWord {before : List UInt8} {t : ValueScan} (h : Scanned before t)
    (hstate : t.state ≠ .leadingSpace) {line : List UInt8}
    (hreading : t.state = .readValue → line = []) (hline : ∀ c ∈ line.head?, isSpace c = false) :
    ∃ spaces trailing, before = spaces ++ (t.value ++ trailing) ∧
      FirstWord spaces t.value trailing line := by
  obtain ⟨state, value⟩ := t
  cases state with
  | leadingSpace => exact absurd rfl hstate
  | readValue =>
    obtain ⟨hvalue, hword, spaces, hbefore, hall⟩ := h.reading rfl
    exact ⟨spaces, [], by rw [hbefore, List.append_nil],
      hall, hword, hvalue, nofun, fun _ => hreading rfl, hline⟩
  | trailingSpace =>
    obtain ⟨hvalue, hword, spaces, trailing, hbefore, hne, hall, htrailing⟩ := h.trailing rfl
    exact ⟨spaces, trailing, hbefore, hall, hword, hvalue, htrailing,
      fun hnil => absurd hnil hne, hline⟩

theorem lineScanner_scan (bytes : List UInt8) :
    (lineScanner.scan [] bytes).1 = (restOfLine bytes).filter (· ≠ flipperFormatEolr) := by
  have hinv := @Scanner.scan_inv _ lineScanner
    (fun before str => flipperFormatEoln ∉ before ∧
      str = before.filter (· ≠ flipperFormatEolr)) ?_ bytes [] [] ⟨List.not_mem_nil, rfl⟩
  · rw [List.nil_append] at hinv
    rw [hinv.2]
    congr 1
    cases hends : lineScanner.ends [] bytes with
    | noMore =>
      have hused := Scanner.of_ends_noMore hends
      rw [hused, List.take_length] at hinv ⊢
      exact (restOfLine_of_not_mem hinv.1).symm
    | stopped data seeked =>
      have hseeked : seeked = true := by
        unfold Scanner.ends at hends
        split at hends <;> cases hends
        rfl
      subst hseeked
      obtain ⟨rest, hdrop, hstop⟩ := Scanner.of_ends_stopped hends
      have hdata : data = flipperFormatEoln := by simpa [lineScanner] using hstop
      conv_rhs => rw [← List.take_append_drop (lineScanner.used [] bytes) bytes]
      rw [restOfLine_append hinv.1, hdrop, hdata, restOfLine_eoln, List.append_nil]
  · rintro before str data ⟨hfree, rfl⟩ hstop
    have hdata : data ≠ flipperFormatEoln := by simpa [lineScanner] using hstop
    refine ⟨?_, ?_⟩
    · rw [List.mem_append, List.mem_singleton, not_or]
      exact ⟨hfree, Ne.symm hdata⟩
    · simp only [lineScanner]
      rw [List.filter_append]
      split_ifs with hreturn <;> simp [hreturn]

end FlipperFormatStream

namespace FlipperFormatStream

open FlipperText

/-! ## Reading -/

section Functions

variable (hv : LineOk v R)
include hv

theorem readValidKey_leaves {f : File} : Leaves R (readValidKey v) f fun found f' =>
    f'.data = f.data ∧ ∀ key, found = some key → ∃ head tail,
      f.data = head ++ flipperFormatDelimiter :: tail ∧ f'.pos = head.length ∧
        EndsWithKey head key := by
  refine (scan_leaves hv keyScanner .start).bind ?_
  rintro ⟨t, stop⟩ f' ⟨hdata, ht, -, hstop⟩
  simp only at ht hstop
  cases stop with
  | noMore => exact Leaves.pure ⟨hdata, nofun⟩
  | stopped data seeked =>
    cases seeked with
    | false => exact Leaves.pure ⟨hdata, nofun⟩
    | true =>
      refine Leaves.pure ⟨hdata, fun key hkey => ?_⟩
      obtain rfl : t.key = key := Option.some.inj hkey
      obtain ⟨hends, hpos⟩ := hstop data rfl
      obtain ⟨rest, hdrop, hstops⟩ := Scanner.of_ends_stopped hends
      have hcollected := @Scanner.scan_inv _ keyScanner Collected
        (fun _ _ _ h hgoes => h.step hgoes) f.rest [] .start (.start [])
      rw [← ht] at hcollected hstops
      generalize keyScanner.used .start f.rest = i at hpos hdrop hcollected
      simp only [keyScanner, Bool.and_eq_true, beq_iff_eq, Bool.not_eq_true'] at hstops
      obtain ⟨⟨rfl, -⟩, haccumulate⟩ := hstops
      have hsplit : f.data = (f.data.take f.pos ++ f.rest.take i) ++
          flipperFormatDelimiter :: rest := by
        rw [List.append_assoc, ← hdrop, List.take_append_drop, Cursor.rest, List.take_append_drop]
      refine ⟨_, rest, hsplit, ?_, ?_⟩
      · have hlength := congrArg List.length hdrop
        have hle := f.pos_le
        rw [List.length_drop, List.length_cons] at hlength
        rw [hpos, List.length_append, List.length_take, List.length_take]
        omega
      · rw [List.nil_append] at hcollected
        exact (hcollected haccumulate).append _

/-- Two characters behind a key that is found. -/
def AtKey (f f' : File) (key : List UInt8) : Prop :=
  ∃ head tail, f.data = head ++ flipperFormatDelimiter :: tail ∧ f'.pos = head.length + 2 ∧
    EndsWithKey head key

theorem seekToKeyLoop_leaves (key : List UInt8) (strictMode : Bool) : ∀ (rounds : ℕ) {f : File},
    Leaves R (seekToKeyLoop v key strictMode rounds) f fun found f' =>
      f'.data = f.data ∧ (found = true → AtKey f f' key)
  | 0, f => .nothing
  | rounds + 1, f => by
    refine streamEof_leaves.bind ?_
    rintro eof f₁ rfl
    by_cases heof : eof = true
    · rw [if_pos heof]
      exact Leaves.pure ⟨rfl, nofun⟩
    rw [if_neg heof]
    refine (readValidKey_leaves hv).bind ?_
    rintro found f₂ ⟨hdata, hfound⟩
    have hagain : Leaves R (seekToKeyLoop v key strictMode rounds) f₂ fun found f' =>
        f'.data = f₁.data ∧ (found = true → AtKey f₁ f' key) := by
      refine (seekToKeyLoop_leaves key strictMode rounds).mono fun found f' h => ?_
      unfold AtKey at h ⊢
      rwa [hdata] at h
    cases found with
    | none => exact hagain
    | some readKey =>
      simp only
      split_ifs with hkey
      · subst hkey
        obtain ⟨head, tail, hsplit, hpos, hends⟩ := hfound readKey rfl
        refine (streamSeek_leaves hv (by omega) (by omega)).mono ?_
        rintro seeked f₃ ⟨hdata', hplace⟩
        refine ⟨hdata'.trans hdata, fun hseeked => ⟨head, tail, hsplit, ?_, hends⟩⟩
        have htwo := hplace hseeked
        omega
      · exact Leaves.pure ⟨hdata, nofun⟩
      · exact hagain

theorem seekToKey_leaves (key : List UInt8) (strictMode : Bool) {f : File} :
    Leaves R (seekToKey v key strictMode) f fun found f' =>
      f'.data = f.data ∧ (found = true → AtKey f f' key) := by
  refine streamSize_leaves.bind ?_
  rintro size f' rfl
  exact seekToKeyLoop_leaves hv key strictMode (size + 1)

theorem readValue_leaves {f : File} : Leaves R (readValue v) f fun read f' =>
    ∀ word last, read = some (word, last) → ∃ spaces trailing,
      restOfLine f.rest = spaces ++ (word ++ (trailing ++ restOfLine f'.rest)) ∧
      FirstWord spaces word trailing (restOfLine f'.rest) ∧
      (last = true ↔ restOfLine f'.rest = []) := by
  refine (scan_leaves hv valueScanner ⟨.leadingSpace, []⟩).bind ?_
  rintro ⟨t, stop⟩ f' ⟨hdata, ht, hmore, hstop⟩
  simp only at ht hmore hstop
  have hscanned := @Scanner.scan_inv _ valueScanner Scanned
    (fun _ _ _ h hgoes => h.step hgoes) f.rest [] _ .start
  rw [← ht, List.nil_append] at hscanned
  cases stop with
  | noMore =>
    obtain ⟨hends, hrest⟩ := hmore rfl
    rw [Scanner.of_ends_noMore hends, List.take_length] at hscanned
    refine streamEof_leaves.bind ?_
    rintro eof f₁ rfl
    refine Leaves.pure fun word last hread => ?_
    split_ifs at hread with hcomplete
    cases hread
    have hline : restOfLine f₁.rest = [] := by rw [hrest]; rfl
    obtain ⟨spaces, trailing, hbefore, hfirst⟩ :=
      hscanned.firstWord hcomplete.1 (fun _ => hline) (by simp [hline])
    refine ⟨spaces, trailing, ?_, hfirst, by simp [hline]⟩
    rw [restOfLine_of_not_mem hscanned.free, hline, List.append_nil, hbefore]
  | stopped data seeked =>
    refine Leaves.pure fun word last hread => ?_
    split_ifs at hread with hcomplete
    cases hread
    obtain ⟨hstate, rfl⟩ := hcomplete
    obtain ⟨hends, hpos⟩ := hstop data rfl
    obtain ⟨rest, hdrop, hstops⟩ := Scanner.of_ends_stopped hends
    rw [← ht] at hstops
    have hrest : f'.rest = data :: rest := by
      rw [Cursor.rest, hdata, hpos, ← List.drop_drop]
      exact hdrop
    have hspace : isSpace data = false ∧ (t.state = .readValue → data = flipperFormatEoln) := by
      obtain ⟨state, value⟩ := t
      cases state with
      | leadingSpace => exact absurd rfl hstate
      | readValue =>
        simp only [valueScanner, Bool.and_eq_true, Bool.not_eq_true', beq_iff_eq] at hstops
        exact ⟨hstops.1, fun _ => hstops.2⟩
      | trailingSpace => exact ⟨by simpa [valueScanner] using hstops, fun h => by cases h⟩
    have hnil : data = flipperFormatEoln ↔ restOfLine f'.rest = [] := by
      rw [hrest]
      refine ⟨fun h => by rw [h, restOfLine_eoln], fun h => ?_⟩
      by_contra hne
      rw [restOfLine_cons hne] at h
      cases h
    obtain ⟨spaces, trailing, hbefore, hfirst⟩ := hscanned.firstWord hstate
      (fun hreading => hnil.1 (hspace.2 hreading)) (by
        rw [hrest]
        by_cases heoln : data = flipperFormatEoln
        · rw [heoln, restOfLine_eoln]
          simp
        · rw [restOfLine_cons heoln]
          rintro c ⟨⟩
          exact hspace.1)
    refine ⟨spaces, trailing, ?_, hfirst, by rw [← hnil, beq_iff_eq]⟩
    conv_lhs => rw [← List.take_append_drop (valueScanner.used ⟨.leadingSpace, []⟩ f.rest) f.rest]
    rw [restOfLine_append hscanned.free, hdrop, ← hrest, hbefore, List.append_assoc,
      List.append_assoc]

theorem readValues_leaves {α : Type} (type : FlipperStreamValue α) : ∀ (left : ℕ) {f : File},
    Leaves R (readValues v type left) f fun read _ => ∀ data, read = some data →
      (parseValues type left (restOfLine f.rest)).map Prod.fst = some data
  | 0, f => Leaves.pure fun data h => h
  | left + 1, f => by
    refine (readValue_leaves hv).bind ?_
    rintro read f₁ hread
    cases read with
    | none => exact Leaves.pure nofun
    | some r =>
      obtain ⟨word, last⟩ := r
      obtain ⟨spaces, trailing, hline, hfirst, hlast⟩ := hread word last rfl
      simp only
      cases hscan : type.scan word with
      | none => exact Leaves.pure nofun
      | some data =>
        simp only
        split_ifs with hshort
        · exact Leaves.pure nofun
        refine (readValues_leaves type left).bind ?_
        intro read f₂ hmore
        refine Leaves.pure fun data' hdata' => ?_
        obtain ⟨rest, hrest, rfl⟩ := Option.map_eq_some_iff.1 hdata'
        obtain ⟨r, hparse, rfl⟩ := Option.map_eq_some_iff.1 (hmore rest hrest)
        rw [hlast] at hshort
        simp only [parseValues, hline, hfirst.nextWord, hscan, if_neg hshort, hparse,
          Option.map_some]

theorem countValues_leaves : ∀ (rounds count : ℕ) {f : File},
    Leaves R (countValues v rounds count) f fun r _ => r.1 = true →
      r.2 = (count + wordCount (restOfLine f.rest)) % 2 ^ 32 ∧ 0 < wordCount (restOfLine f.rest)
  | 0, count, f => .nothing
  | rounds + 1, count, f => by
    refine (readValue_leaves hv).bind ?_
    rintro read f₁ hread
    cases read with
    | none => exact Leaves.pure nofun
    | some r =>
      obtain ⟨word, last⟩ := r
      obtain ⟨spaces, trailing, hline, hfirst, hlast⟩ := hread word last rfl
      have hcount := hfirst.wordCount
      rw [← hline] at hcount
      simp only
      split_ifs with hend
      · rw [hlast.1 hend] at hcount
        refine Leaves.pure fun _ => ⟨?_, by omega⟩
        rw [hcount]
        rfl
      · refine (countValues_leaves rounds ((count + 1) % 2 ^ 32)).mono ?_
        intro r f₂ hmore hsucceeded
        rw [(hmore hsucceeded).1, hcount]
        exact ⟨by omega, Nat.succ_pos _⟩

end Functions

end FlipperFormatStream

namespace FlipperFormatStream

open FlipperText

/-! ## On the line of the key -/

/-- The key that is found from a state of the stream on is in front of this delimiter. -/
structure Matched (v : StreamVTable σ) (R : σ → File → Prop) (key : List UInt8) (strictMode : Bool)
    (s : σ) (f : File) (head tail : List UInt8) : Prop where
  split : f.data = head ++ flipperFormatDelimiter :: tail
  found : ∃ s' f', seekToKey v key strictMode s = some (true, s') ∧ R s' f' ∧ f'.data = f.data ∧
    f'.pos = head.length + 2
  ends : EndsWithKey head key

/-- What is given back is what a piece of the line behind the delimiter says. -/
def OnLine (tail : List UInt8) (meaning : List UInt8 → Option β) (answer : β) : Prop :=
  ∃ text, text <:+: restOfLine tail ∧ meaning text = some answer

/-- An answer that the text from the second character on gives is on the line if that is not a line
feed, and else if it needs no text. -/
theorem onLine_iff {tail : List UInt8} {meaning : List UInt8 → Option β} {answer : β}
    (hne : tail ≠ []) (hmeaning : meaning (restOfLine (tail.drop 1)) = some answer) {void : Prop}
    (hvoid : meaning [] = some answer ↔ void) :
    OnLine tail meaning answer ↔ tail.head? ≠ some flipperFormatEoln ∨ void := by
  obtain ⟨c, rest, rfl⟩ := List.exists_cons_of_ne_nil hne
  by_cases hc : c = flipperFormatEoln
  · subst hc
    unfold OnLine
    rw [restOfLine_eoln, ← hvoid]
    simp
  · refine iff_of_true ⟨restOfLine rest, ?_, hmeaning⟩ (.inl (by simpa using hc))
    rw [restOfLine_cons hc]
    exact (List.suffix_cons _ _).isInfix

theorem Matched.of_seekToKey (hv : LineOk v R) {s : σ} {f : File} (hs : R s f) {key : List UInt8}
    {strictMode : Bool} {s' : σ} (hrun : seekToKey v key strictMode s = some (true, s')) :
    ∃ head tail f', Matched v R key strictMode s f head tail ∧ tail ≠ [] ∧ R s' f' ∧
      f'.rest = tail.drop 1 := by
  obtain ⟨f', hs', hdata, hfound⟩ := seekToKey_leaves hv key strictMode s hs true s' hrun
  obtain ⟨head, tail, hsplit, hpos, hends⟩ := hfound rfl
  refine ⟨head, tail, f', ⟨hsplit, ⟨s', f', hrun, hs', hdata, hpos⟩, hends⟩, ?_, hs', ?_⟩
  · rintro rfl
    have hle := f'.pos_le
    rw [hpos, hdata, hsplit, List.length_append, List.length_singleton] at hle
    omega
  · rw [Cursor.rest, hdata, hpos, hsplit, ← List.drop_drop, List.drop_left]
    rfl

theorem Matched.of_run (hv : LineOk v R) {s : σ} {f : File} (hs : R s f) {key : List UInt8}
    {strictMode : Bool} {k : StreamM σ (Option β)} {answer : β} {s' : σ}
    (hrun : (do if ← seekToKey v key strictMode then k else return none : StreamM σ (Option β)) s =
      some (some answer, s')) :
    ∃ head tail s₁ f₁, Matched v R key strictMode s f head tail ∧ tail ≠ [] ∧ R s₁ f₁ ∧
      f₁.rest = tail.drop 1 ∧ k s₁ = some (some answer, s') := by
  obtain ⟨found, s₁, hseek, hread⟩ := StreamM.bind_eq_some hrun
  cases found with
  | false => cases hread
  | true =>
    obtain ⟨head, tail, f₁, hmatched, hne, hs₁, hrest⟩ := Matched.of_seekToKey hv hs hseek
    exact ⟨head, tail, s₁, f₁, hmatched, hne, hs₁, hrest, hread⟩

theorem parseValues_zero {type : FlipperStreamValue α} (line : List UInt8) :
    parseValues type 0 line = some ([], line) := rfl

theorem parseValues_nil {type : FlipperStreamValue α} {dataSize : ℕ} {line : List UInt8}
    {data : List α} (h : (parseValues type dataSize line).map Prod.fst = some data) :
    (parseValues type dataSize []).map Prod.fst = some data ↔ dataSize = 0 := by
  cases dataSize with
  | zero => exact iff_of_true h rfl
  | succ left => exact iff_of_false nofun (Nat.succ_ne_zero left)

theorem readArrayLine_onLine_iff (hv : LineOk v R) {s : σ} {f : File} (hs : R s f)
    {key : List UInt8} {strictMode : Bool} {type : FlipperStreamValue α} {dataSize : ℕ}
    {data : List α} {s' : σ}
    (hrun : readArrayLine v key type dataSize strictMode s = some (some data, s')) :
    ∃ head tail, Matched v R key strictMode s f head tail ∧
      (OnLine tail (fun text => (parseValues type dataSize text).map Prod.fst) data ↔
        tail.head? ≠ some flipperFormatEoln ∨ dataSize = 0) := by
  obtain ⟨head, tail, s₁, f₁, hmatched, hne, hs₁, hrest, hread⟩ := Matched.of_run hv hs hrun
  obtain ⟨-, -, hparse⟩ := readValues_leaves hv type dataSize s₁ hs₁ _ _ hread
  have hdata := hparse data rfl
  rw [hrest] at hdata
  exact ⟨head, tail, hmatched, onLine_iff hne hdata (parseValues_nil hdata)⟩

theorem readLine_leaves (hv : LineOk v R) {f : File} : Leaves R (readLine v) f fun r _ =>
    r.2 = (restOfLine f.rest).filter (· ≠ flipperFormatEolr) ∧ r.1 = (r.2.length != 0) := by
  refine (scan_leaves hv lineScanner []).bind ?_
  rintro ⟨str, stop⟩ f' ⟨-, hstr, -, -⟩
  exact Leaves.pure ⟨hstr.trans (lineScanner_scan f.rest), rfl⟩

theorem readArrayLine_of_map {key : List UInt8} {strictMode : Bool}
    {type : FlipperStreamValue α} {dataSize : ℕ} {wrap : List α → FlipperValue}
    {value : FlipperValue} {s s' : σ}
    (hrun : (do
      if ← seekToKey v key strictMode then return (← readValues v type dataSize).map wrap
      else return none : StreamM σ (Option FlipperValue)) s = some (some value, s')) :
    ∃ data, value = wrap data ∧
      readArrayLine v key type dataSize strictMode s = some (some data, s') := by
  obtain ⟨found, s₁, hseek, hread⟩ := StreamM.bind_eq_some hrun
  cases found with
  | false => cases hread
  | true =>
    obtain ⟨data, s₂, hvalues, hwrap⟩ := StreamM.bind_eq_some hread
    cases data with
    | none => cases hwrap
    | some data =>
      cases hwrap
      exact ⟨data, rfl, Option.bind_eq_some_iff.2 ⟨(true, s₁), hseek, hvalues⟩⟩

end FlipperFormatStream

namespace FlipperFormatStream

open FlipperText

theorem array_onLine_iff (type : FlipperType) (htype : type ≠ .str) (hv : LineOk v R) {s : σ}
    {f : File} (hs : R s f) {key : List UInt8} {strictMode : Bool}
    {elements : FlipperStreamValue α} {dataSize : ℕ} {wrap : List α → FlipperValue}
    (hwrap : Function.Injective wrap)
    (hparse : ∀ text, parse dataSize text type =
      (parseValues elements dataSize text).map fun r => wrap r.1)
    {value : FlipperValue} {s' : σ}
    (hrun : (do
      if ← seekToKey v key strictMode then return (← readValues v elements dataSize).map wrap
      else return none : StreamM σ (Option FlipperValue)) s = some (some value, s')) :
    ∃ head tail, Matched v R key strictMode s f head tail ∧
      (OnLine tail (parse dataSize · type) value ↔
        tail.head? ≠ some flipperFormatEoln ∨ type ≠ .str ∧ dataSize = 0) := by
  obtain ⟨data, rfl, harray⟩ := readArrayLine_of_map hrun
  obtain ⟨head, tail, hmatched, hiff⟩ := readArrayLine_onLine_iff hv hs harray
  rw [and_iff_right htype]
  refine ⟨head, tail, hmatched, Iff.trans ?_ hiff⟩
  unfold OnLine
  refine exists_congr fun text => and_congr_right fun _ => ?_
  simp only [hparse, Option.map_eq_some_iff]
  exact exists_congr fun r => and_congr_right fun _ => hwrap.eq_iff

theorem readValueLine_onLine_iff (hv : LineOk v R) {s : σ} {f : File} (hs : R s f)
    {key : List UInt8} {type : FlipperType} {dataSize : ℕ} {strictMode : Bool}
    {value : FlipperValue} {s' : σ}
    (hrun : readValueLine v key type dataSize strictMode s = some (some value, s')) :
    ∃ head tail, Matched v R key strictMode s f head tail ∧
      (OnLine tail (parse dataSize · type) value ↔
        tail.head? ≠ some flipperFormatEoln ∨ type ≠ .str ∧ dataSize = 0) := by
  cases type with
  | str =>
    obtain ⟨head, tail, s₁, f₁, hmatched, hne, hs₁, hrest, hread⟩ := Matched.of_run hv hs hrun
    obtain ⟨⟨found, line⟩, s₂, hline, hvalue⟩ := StreamM.bind_eq_some hread
    obtain ⟨-, -, hdata, hfound⟩ := readLine_leaves hv s₁ hs₁ _ _ hline
    simp only at hdata hfound hvalue
    by_cases hsome : found = true
    swap
    · rw [if_neg hsome] at hvalue
      cases hvalue
    rw [if_pos hsome] at hvalue
    cases hvalue
    have hlength : line ≠ [] := by
      rintro rfl
      rw [hfound] at hsome
      cases hsome
    have hmeaning : parse dataSize (restOfLine (tail.drop 1)) .str = some (.str line) := by
      rw [parse, ← hrest, ← hdata, if_pos hlength]
    refine ⟨head, tail, hmatched, onLine_iff hne hmeaning (iff_of_false nofun ?_)⟩
    exact fun h => h.1 rfl
  | hex =>
    exact array_onLine_iff .hex nofun hv hs (fun _ _ => FlipperValue.hex.inj) (fun _ => rfl)
      hrun
  | int32 =>
    exact array_onLine_iff .int32 nofun hv hs (fun _ _ => FlipperValue.int32.inj) (fun _ => rfl)
      hrun
  | uint32 =>
    exact array_onLine_iff .uint32 nofun hv hs (fun _ _ => FlipperValue.uint32.inj) (fun _ => rfl)
      hrun
  | hexUint64 =>
    exact array_onLine_iff .hexUint64 nofun hv hs (fun _ _ => FlipperValue.hexUint64.inj)
      (fun _ => rfl) hrun
  | bool =>
    exact array_onLine_iff .bool nofun hv hs (fun _ _ => FlipperValue.bool.inj) (fun _ => rfl)
      hrun

theorem getValueCount_onLine_iff (hv : LineOk v R) {s : σ} {f : File} (hs : R s f)
    {key : List UInt8} {strictMode : Bool} {count : ℕ} {s' : σ}
    (hrun : getValueCount v key strictMode s = some ((true, some count), s')) :
    ∃ head tail, Matched v R key strictMode s f head tail ∧
      (OnLine tail (fun text => some (wordCount text)) count ↔
        tail.head? ≠ some flipperFormatEoln) := by
  obtain ⟨position, s₀, htell, hrun⟩ := StreamM.bind_eq_some hrun
  cases htell
  obtain ⟨counted, s₁, hcount, hseek⟩ := StreamM.bind_eq_some hrun
  obtain ⟨seeked, s₂, -, hresult⟩ := StreamM.bind_eq_some hseek
  have hboth : (counted.1 && seeked) = true ∧ counted.2 = some count := by
    have hpair := congrArg Prod.fst (Option.some.inj hresult)
    exact ⟨congrArg Prod.fst hpair, congrArg Prod.snd hpair⟩
  have hcounted : counted = (true, some count) :=
    Prod.ext (Bool.and_eq_true_iff.1 hboth.1).1 hboth.2
  rw [hcounted] at hcount
  obtain ⟨found, s₃, hfound, hwords⟩ := StreamM.bind_eq_some hcount
  cases found with
  | false => cases hwords
  | true =>
    obtain ⟨head, tail, f₃, hmatched, hne, hs₃, hrest⟩ := Matched.of_seekToKey hv hs hfound
    obtain ⟨size, s₄, hsize, hwords⟩ := StreamM.bind_eq_some hwords
    cases hsize
    obtain ⟨r, s₅, hloop, hr⟩ := StreamM.bind_eq_some hwords
    obtain ⟨-, -, hleaves⟩ := countValues_leaves hv _ 0 s₃ hs₃ r s₅ hloop
    have hpair := congrArg Prod.fst (Option.some.inj hr)
    obtain ⟨htotal, hpos⟩ := hleaves (congrArg Prod.fst hpair)
    have hvalue : r.2 = count := Option.some.inj (congrArg Prod.snd hpair)
    have hle : wordCount (restOfLine f₃.rest) ≤ f₃.rest.length :=
      (wordsFrom_le false _).trans (List.takeWhile_prefix _).length_le
    have hfits := hv.fits hs₃
    rw [Cursor.length_rest] at hle
    rw [hvalue, Nat.zero_add, Nat.mod_eq_of_lt (by omega)] at htotal
    rw [← htotal] at hpos
    have hmeaning : some (wordCount (restOfLine (tail.drop 1))) = some count := by
      rw [htotal, hrest]
    have hnothing : some (wordCount []) = some count ↔ False :=
      iff_of_false (fun h => by cases h; exact absurd hpos (by decide)) id
    have hiff := @onLine_iff _ tail (fun text => some (wordCount text)) count hne hmeaning _
      hnothing
    rw [or_false] at hiff
    exact ⟨head, tail, hmatched, hiff⟩

/-- What is read at a key is made up of bytes on its line just if its delimiter is not right in
front of the line feed, or if no element is asked for. -/
theorem read_onLine_iff (hv : LineOk v R) {s : σ} {f : File} (hs : R s f) (key : List UInt8)
    (strictMode : Bool) :
    (∀ type dataSize value s', readValueLine v key type dataSize strictMode s =
        some (some value, s') →
      ∃ head tail, Matched v R key strictMode s f head tail ∧
        (OnLine tail (parse dataSize · type) value ↔
          tail.head? ≠ some flipperFormatEoln ∨ type ≠ .str ∧ dataSize = 0)) ∧
    (∀ (α : Type) (type : FlipperStreamValue α) dataSize data s',
      readArrayLine v key type dataSize strictMode s = some (some data, s') →
      ∃ head tail, Matched v R key strictMode s f head tail ∧
        (OnLine tail (fun text => (parseValues type dataSize text).map Prod.fst) data ↔
          tail.head? ≠ some flipperFormatEoln ∨ dataSize = 0)) ∧
    ∀ count s', getValueCount v key strictMode s = some ((true, some count), s') →
      ∃ head tail, Matched v R key strictMode s f head tail ∧
        (OnLine tail (fun text => some (wordCount text)) count ↔
          tail.head? ≠ some flipperFormatEoln) :=
  ⟨fun _ _ _ _ hrun => readValueLine_onLine_iff hv hs hrun,
    fun _ _ _ _ _ hrun => readArrayLine_onLine_iff hv hs hrun,
    fun _ _ hrun => getValueCount_onLine_iff hv hs hrun⟩

/-- The text `A: B`. -/
def valueText : File := ⟨[65, 58, 32, 66], 0, by decide⟩

/-- A string is read from the line of its key. -/
theorem read_onLine_iff_value :
    ∃ head tail, Matched FileStream.vtable FileStream.StandsLarge [65] false valueText valueText
      head tail ∧ (OnLine tail (parse 1 · .str) (.str [66]) ↔
        tail.head? ≠ some flipperFormatEoln ∨ FlipperType.str ≠ .str ∧ 1 = 0) :=
  (read_onLine_iff FileStream.lineOk (show FileStream.StandsLarge valueText valueText from
    ⟨rfl, by decide⟩) [65] false).1 .str 1 (.str [66]) ⟨[65, 58, 32, 66], 4, by decide⟩ rfl

/-- The key `A` with nothing behind it, and another line. -/
def emptyValueText : File := ⟨[65, 58, 10, 66, 67], 0, by decide⟩

/-- What is behind a key without a value is read from the next line. -/
theorem not_read_onLine : ¬∀ (f : File) (key : List UInt8) (strictMode : Bool) (type : FlipperType)
    (dataSize : ℕ) (value : FlipperValue) (s' : File), f.data.length < 2 ^ 32 →
    readValueLine FileStream.vtable key type dataSize strictMode f = some (some value, s') →
    ∃ head tail, Matched FileStream.vtable FileStream.StandsLarge key strictMode f f head tail ∧
      OnLine tail (parse dataSize · type) value := by
  intro h
  obtain ⟨head, tail, hmatched, text, htext, hmeaning⟩ := h emptyValueText [65] false .str 1
    (.str [66, 67]) ⟨[65, 58, 10, 66, 67], 5, by decide⟩ (by decide) rfl
  obtain ⟨s', f', hrun, ⟨rfl, -⟩, -, hpos⟩ := hmatched.found
  have hplace : seekToKey FileStream.vtable [65] false emptyValueText =
      some (true, ⟨[65, 58, 10, 66, 67], 3, by decide⟩) := rfl
  cases hplace.symm.trans hrun
  have hhead : head.length = 1 := by simpa using hpos.symm
  obtain ⟨c, rfl⟩ := List.length_eq_one_iff.1 hhead
  have hsplit : [65, 58, 10, 66, 67] = [c] ++ flipperFormatDelimiter :: tail := hmatched.split
  simp only [List.cons_append, List.nil_append, List.cons.injEq] at hsplit
  rw [← hsplit.2.2] at htext
  obtain rfl : text = [] := List.infix_nil.1 htext
  cases hmeaning

end FlipperFormatStream

end KiisuFirmware
