import KiisuFirmware.Proofs.FlipperFormat
import KiisuFirmware.Proofs.FlipperLine

/-!
# Reading finds what the text says

On a stream that behaves (`StreamOk`) a seek to a key ends where the text says (`valueStart`), and
words, arrays and lines are read as they stand, with the stream left behind them.
-/

namespace KiisuFirmware

variable {σ α : Type} {v : StreamVTable σ} {R : σ → File → Prop}

namespace FlipperText

/-! ## Keys of a text -/

theorem keyOf_some {line key : List UInt8} (h : keyOf line = some key) :
    flipperFormatDelimiter ∈ line ∧ 0 < delimiterOf line ∧ delimiterOf line + 1 ≤ line.length := by
  unfold keyOf at h
  split_ifs at h with hkey
  obtain ⟨hmem, hne, -⟩ := hkey
  refine ⟨hmem, ?_, ?_⟩
  · refine Nat.pos_of_ne_zero fun hzero => hne ?_
    rw [keyText, List.length_eq_zero_iff.1 hzero]
    rfl
  · unfold delimiterOf
    refine Nat.lt_of_le_of_ne (List.takeWhile_prefix _).length_le fun hall => ?_
    have heq := (List.takeWhile_prefix (· ≠ flipperFormatDelimiter) (l := line)).eq_of_length hall
    rw [← heq] at hmem
    simpa using List.mem_takeWhile_imp hmem

theorem drop_delimiterOf {line : List UInt8} (h : flipperFormatDelimiter ∈ line) :
    ∃ rest, line.drop (delimiterOf line) = flipperFormatDelimiter :: rest := by
  induction line with
  | nil => cases h
  | cons c line ih =>
    by_cases hc : c = flipperFormatDelimiter
    · subst hc
      refine ⟨line, ?_⟩
      rw [delimiterOf, List.takeWhile_cons_of_neg (by simp)]
      rfl
    · rw [mem_delimiter_cons hc] at h
      rw [delimiterOf_cons hc]
      exact ih h

theorem bytes_append (pre lines : List (List UInt8)) (last : List UInt8) :
    bytes (pre ++ lines) last = bytes pre [] ++ bytes lines last := by
  induction pre with
  | nil => rfl
  | cons line pre ih =>
    rw [List.cons_append, bytes, bytes, ih, List.append_assoc, List.cons_append]

theorem firstKey_some : ∀ {lines : List (List UInt8)} {last key : List UInt8} {n : ℕ},
    LineFree lines last → firstKey lines last = some (key, n) →
    0 < n ∧ n + 1 ≤ (bytes lines last).length ∧ ∃ lines' last', LineFree lines' last' ∧
      (bytes lines last).drop n = bytes lines' last' ∧
      ∀ strictMode wanted, valueStart strictMode wanted lines last =
        if key = wanted then
          if n + 2 ≤ (bytes lines last).length then some (n + 2) else none
        else if strictMode = true then none
        else (valueStart strictMode wanted lines' last').map (n + ·)
  | [], last, key, n, hfree, h => by
    rw [firstKey] at h
    obtain ⟨key', hkey, heq⟩ := Option.map_eq_some_iff.1 h
    obtain ⟨rfl, rfl⟩ := Prod.mk.inj heq
    obtain ⟨hmem, hpos, hlt⟩ := keyOf_some hkey
    obtain ⟨rest, hdrop⟩ := drop_delimiterOf hmem
    refine ⟨hpos, hlt, [], flipperFormatDelimiter :: rest, ⟨by simp, ?_⟩, hdrop, ?_⟩
    · rw [← hdrop]
      exact fun hmem => hfree.2 (List.mem_of_mem_drop hmem)
    · intro strictMode wanted
      simp only [valueStart, keyOf_delimiter, hkey, bytes]
      by_cases hkey' : key' = wanted
      · by_cases hroom : delimiterOf last + 2 ≤ last.length <;> simp [hkey', hroom]
      · simp [hkey']
  | line :: lines, last, key, n, hfree, h => by
    have hlines : LineFree lines last :=
      ⟨fun l hl => hfree.1 l (List.mem_cons_of_mem line hl), hfree.2⟩
    rw [firstKey] at h
    cases hkey : keyOf line with
    | some key' =>
      rw [hkey] at h
      obtain ⟨rfl, rfl⟩ := Prod.mk.inj (Option.some.inj h)
      obtain ⟨hmem, hpos, hlt⟩ := keyOf_some hkey
      obtain ⟨rest, hdrop⟩ := drop_delimiterOf hmem
      have hrest : flipperFormatEoln ∉ flipperFormatDelimiter :: rest := by
        rw [← hdrop]
        exact fun hmem => hfree.1 line List.mem_cons_self (List.mem_of_mem_drop hmem)
      have hlength : (flipperFormatDelimiter :: rest).length + delimiterOf line = line.length := by
        rw [← hdrop, List.length_drop]
        omega
      refine ⟨hpos, ?_, (flipperFormatDelimiter :: rest) :: lines, last, ⟨?_, hfree.2⟩, ?_, ?_⟩
      · rw [bytes, List.length_append]
        omega
      · intro l hl
        rcases List.mem_cons.1 hl with rfl | hl
        · exact hrest
        · exact hlines.1 l hl
      · rw [bytes, List.drop_append_of_le_length (by omega), hdrop, bytes]
      · intro strictMode wanted
        simp only [valueStart, keyOf_delimiter, hkey]
        have hroom : delimiterOf line + 2 ≤ (bytes (line :: lines) last).length := by
          rw [bytes, List.length_append, List.length_cons]
          omega
        by_cases hkey' : key' = wanted
        · rw [if_pos (congrArg some hkey'), if_pos hkey', if_pos hroom]
        · cases strictMode with
          | true => simp [hkey']
          | false =>
            simp only [hkey', if_false, Option.map_map, Option.some.injEq, Bool.false_eq_true,
              false_and, reduceCtorEq]
            congr 1
            funext m
            simp only [Function.comp_apply]
            omega
    | none =>
      rw [hkey] at h
      obtain ⟨⟨key', m⟩, hfirst, heq⟩ := Option.map_eq_some_iff.1 h
      obtain ⟨rfl, rfl⟩ := Prod.mk.inj heq
      obtain ⟨hpos, hlt, lines', last', hfree', hdrop, hstart⟩ := firstKey_some hlines hfirst
      refine ⟨by omega, ?_, lines', last', hfree', ?_, ?_⟩
      · rw [bytes, List.length_append, List.length_cons]
        simp only
        omega
      · rw [bytes, ← hdrop]
        simp only
        rw [show line.length + 1 + m = line.length + (m + 1) by omega, ← List.drop_drop,
          List.drop_left]
        rfl
      · intro strictMode wanted
        simp only [valueStart, hkey, hstart]
        have hlength : (bytes (line :: lines) last).length =
            line.length + ((bytes lines last).length + 1) := by
          rw [bytes, List.length_append, List.length_cons]
        by_cases hkey' : key' = wanted
        · simp only [hkey', if_true]
          by_cases hroom : m + 2 ≤ (bytes lines last).length
          · have hroom' : line.length + 1 + m + 2 ≤ (bytes (line :: lines) last).length := by omega
            simp only [if_pos hroom, if_pos hroom', Option.map_some, reduceCtorEq, ne_eq,
              not_true_eq_false, and_false, if_false]
            rw [Nat.add_assoc _ m 2]
          · have hroom' : ¬line.length + 1 + m + 2 ≤ (bytes (line :: lines) last).length := by
              omega
            simp only [if_neg hroom, if_neg hroom', Option.map_none, reduceCtorEq, if_false]
            split_ifs <;> rfl
        · cases strictMode with
          | true => simp [hkey']
          | false =>
            simp only [hkey', if_false, Option.map_map, reduceCtorEq, Bool.false_eq_true,
              false_and]
            congr 1
            funext k
            simp only [Function.comp_apply]
            omega

theorem valueStart_of_firstKey_none : ∀ {lines : List (List UInt8)} {last : List UInt8},
    firstKey lines last = none → ∀ strictMode wanted, valueStart strictMode wanted lines last = none
  | [], last, h, strictMode, wanted => by
    rw [firstKey, Option.map_eq_none_iff] at h
    simp [valueStart, h]
  | line :: lines, last, h, strictMode, wanted => by
    rw [firstKey] at h
    cases hkey : keyOf line with
    | some key =>
      rw [hkey] at h
      cases h
    | none =>
      rw [hkey, Option.map_eq_none_iff] at h
      simp [valueStart, hkey, valueStart_of_firstKey_none h strictMode wanted]

theorem FirstWord.wordCount_pos {spaces word trailing line : List UInt8}
    (h : FirstWord spaces word trailing line) (hne : line ≠ []) :
    0 < FlipperText.wordCount line := by
  obtain ⟨c, line', hline⟩ := List.exists_cons_of_ne_nil hne
  have hc : FlipperFormatStream.isSpace c = false := h.next c (by rw [hline]; rfl)
  rw [hline, FlipperText.wordCount, wordsFrom, if_neg (by rw [hc]; simp)]
  simp

end FlipperText

namespace FlipperFormatStream

open FlipperText

/-! ## Seeking a key -/

section Seek

variable (hv : StreamOk v R)
include hv

theorem readValidKey_ensures {f : File} {lines : List (List UInt8)} {last : List UInt8}
    (hfree : LineFree lines last) (hrest : f.rest = bytes lines last) :
    Ensures R (readValidKey v) f fun found f' =>
      found = (firstKey lines last).map Prod.fst ∧
        f' = f.advance (((firstKey lines last).map Prod.snd).getD f.rest.length) := by
  refine (scan_ensures hv keyScanner .start).bind ?_
  rintro r f' ⟨rfl, rfl⟩
  obtain ⟨t, hscan, hkey⟩ := keyScanner_text lines hfree
  rw [← hrest] at hscan
  have hused : keyScanner.used .start f.rest =
      ((firstKey lines last).map Prod.snd).getD f.rest.length := by
    rw [Scanner.used, hscan]
  cases hfirst : firstKey lines last with
  | none =>
    have hends : keyScanner.ends .start f.rest = .noMore := by
      simp only [Scanner.ends, hscan, hfirst, Option.map_none]
    simp only [hends, hused, hfirst]
    exact Ensures.pure ⟨rfl, rfl⟩
  | some r =>
    have hends : keyScanner.ends .start f.rest = .stopped (f.rest.getD r.2 0) true := by
      simp only [Scanner.ends, hscan, hfirst, Option.map_some]
    simp only [hends, hused, hscan, hfirst]
    exact Ensures.pure ⟨congrArg some (hkey r hfirst), rfl⟩

theorem seekToKeyLoop_ensures (key : List UInt8) (strictMode : Bool) : ∀ (rounds : ℕ) {f : File}
    {lines : List (List UInt8)} {last : List UInt8}, LineFree lines last →
    f.rest = bytes lines last → f.rest.length < rounds →
    Ensures R (seekToKeyLoop v key strictMode rounds) f fun found f' =>
      found = (valueStart strictMode key lines last).isSome ∧ f'.data = f.data ∧
        ∀ n, valueStart strictMode key lines last = some n → f' = f.advance n
  | 0, _, _, _, _, _, hrounds => absurd hrounds (Nat.not_lt_zero _)
  | rounds + 1, f, lines, last, hfree, hrest, hrounds => by
    refine (streamEof_ensures hv).bind_eq ?_
    by_cases heof : f.pos = f.data.length
    · have hnil : bytes lines last = [] := by
        rw [← hrest, Cursor.rest, heof, List.drop_length]
      have hnone : firstKey lines last = none := by
        cases hfirst : firstKey lines last with
        | none => rfl
        | some r =>
          obtain ⟨-, hlt, -⟩ := firstKey_some hfree hfirst
          rw [hnil] at hlt
          cases hlt
      rw [if_pos (decide_eq_true heof)]
      simp only [valueStart_of_firstKey_none hnone]
      exact Ensures.pure ⟨rfl, rfl, by simp⟩
    · rw [if_neg (by simpa using heof)]
      have hpos : 0 < f.rest.length := by
        have := f.pos_le
        rw [Cursor.length_rest]
        omega
      refine (readValidKey_ensures hv hfree hrest).bind ?_
      rintro found f' ⟨rfl, rfl⟩
      cases hfirst : firstKey lines last with
      | none =>
        simp only [Option.map_none, Option.getD_none]
        have hend : (f.advance f.rest.length).rest = bytes [] [] := by
          rw [Cursor.rest_advance, List.drop_length]
          rfl
        refine (seekToKeyLoop_ensures key strictMode rounds ⟨by simp, by simp⟩ hend ?_).mono ?_
        · rw [hend]
          exact Nat.pos_of_ne_zero fun h => by omega
        · rintro found f' ⟨hfound, hdata, -⟩
          rw [valueStart_of_firstKey_none hfirst]
          refine ⟨?_, hdata, by simp⟩
          rw [hfound]
          simp [valueStart, keyOf]
      | some r =>
        obtain ⟨readKey, n⟩ := r
        obtain ⟨hpos, hlt, lines', last', hfree', hdrop, hstart⟩ := firstKey_some hfree hfirst
        rw [← hrest] at hlt hdrop
        simp only [Option.map_some, Option.getD_some, hstart]
        have hle := f.pos_le
        rw [Cursor.length_rest] at hlt
        have hplace : (f.advance n).pos = f.pos + n := by
          rw [Cursor.advance_pos]
          omega
        by_cases hkey : readKey = key
        · simp only [if_pos hkey]
          intro s hs
          have hfits := hv.fits hs
          unfold FileFits at hfits
          rw [Cursor.advance_data] at hfits
          obtain ⟨found, s', f', hrun, hs', hfound, rfl⟩ := @streamSeek_ensures _ _ _ hv.readOk
            (f.advance n) 2 (((f.pos + n : ℕ) : ℤ) + 2) .fromCurrent
            (by rw [StreamOffset.origin, hplace]) (by omega) (by norm_num) (by norm_num) s hs
          refine ⟨found, s', _, hrun, hs', ?_⟩
          simp only [Cursor.advance_data] at hfound ⊢
          have htarget : seekTarget f.data.length (((f.pos + n : ℕ) : ℤ) + 2) =
              if f.pos + n + 2 ≤ f.data.length then (true, f.pos + n + 2)
              else (false, f.data.length) := by
            unfold seekTarget
            split_ifs <;> first | rfl | omega
          rw [htarget] at hfound ⊢
          rw [← hrest, Cursor.length_rest]
          by_cases hroom : f.pos + n + 2 ≤ f.data.length
          · rw [if_pos hroom] at hfound ⊢
            rw [if_pos (by omega)]
            refine ⟨hfound, rfl, fun m hm => ?_⟩
            rw [← Option.some.inj hm]
            rfl
          · rw [if_neg hroom] at hfound ⊢
            rw [if_neg (by omega)]
            exact ⟨hfound, rfl, by simp⟩
        · simp only [if_neg hkey]
          by_cases hstrict : strictMode = true
          · simp only [if_pos hstrict]
            exact Ensures.pure ⟨rfl, rfl, by simp⟩
          · simp only [if_neg hstrict]
            have hrest' : (f.advance n).rest = bytes lines' last' := by
              rw [Cursor.rest_advance, hdrop]
            refine (seekToKeyLoop_ensures key strictMode rounds hfree' hrest' ?_).mono ?_
            · rw [Cursor.rest_advance, List.length_drop]
              omega
            · rintro found f' ⟨hfound, hdata, hplace'⟩
              refine ⟨by rw [hfound, Option.isSome_map], hdata, fun m hm => ?_⟩
              obtain ⟨k, hk, rfl⟩ := Option.map_eq_some_iff.1 hm
              rw [hplace' k hk, Cursor.advance_advance]

theorem seekToKey_ensures (key : List UInt8) (strictMode : Bool) {f : File}
    {lines : List (List UInt8)} {last : List UInt8} (hfree : LineFree lines last)
    (hrest : f.rest = bytes lines last) :
    Ensures R (seekToKey v key strictMode) f fun found f' =>
      found = (valueStart strictMode key lines last).isSome ∧ f'.data = f.data ∧
        ∀ n, valueStart strictMode key lines last = some n → f' = f.advance n := by
  refine (streamSize_ensures hv.readOk).bind_eq
    (seekToKeyLoop_ensures hv key strictMode _ hfree hrest ?_)
  rw [Cursor.length_rest]
  omega

end Seek

/-! ## Words and lines -/

/-- A line, and what is behind it. -/
structure LineAt (f : File) (line tail : List UInt8) : Prop where
  rest : f.rest = line ++ tail
  free : flipperFormatEoln ∉ line
  tail : ∀ c ∈ tail.head?, c = flipperFormatEoln

theorem LineAt.restOfLine {f : File} {line tail : List UInt8} (h : LineAt f line tail) :
    restOfLine f.rest = line := by
  rw [h.rest, restOfLine_append h.free]
  cases htail : tail with
  | nil => exact List.append_nil line
  | cons c tail =>
    have hc := h.tail c (by rw [htail]; rfl)
    rw [hc, restOfLine_eoln, List.append_nil]

theorem LineAt.of_split {f f' : File} {line tail taken : List UInt8} (h : LineAt f line tail)
    (hrest : f.rest = taken ++ f'.rest) (htaken : flipperFormatEoln ∉ taken) :
    LineAt f' (FlipperText.restOfLine f'.rest) tail := by
  have hline := h.restOfLine
  rw [hrest, restOfLine_append htaken] at hline
  have hrest' := h.rest
  rw [hrest, ← hline, List.append_assoc] at hrest'
  refine ⟨List.append_cancel_left hrest', fun hmem => h.free ?_, h.tail⟩
  rw [← hline]
  exact List.mem_append_right _ hmem

theorem valueScanner_ends (rest : List UInt8) :
    let r := valueScanner.scan ⟨.leadingSpace, []⟩ rest
    let used := valueScanner.used ⟨.leadingSpace, []⟩ rest
    flipperFormatEoln ∉ rest.take used ∧
      (r.1.state = .leadingSpace ∧ nextWord (restOfLine rest) = none ∨
        r.1.state ≠ .leadingSpace ∧ ∃ spaces trailing,
          restOfLine rest = spaces ++ (r.1.value ++ (trailing ++ restOfLine (rest.drop used))) ∧
          FirstWord spaces r.1.value trailing (restOfLine (rest.drop used)) ∧
          (valueScanner.ends ⟨.leadingSpace, []⟩ rest = .noMore ∧ rest.drop used = [] ∨
            ∃ data, valueScanner.ends ⟨.leadingSpace, []⟩ rest = .stopped data true ∧
              (data = flipperFormatEoln ↔ restOfLine (rest.drop used) = []))) := by
  intro r used
  have hscanned := @Scanner.scan_inv _ valueScanner Scanned
    (fun _ _ _ h hgoes => h.step hgoes) rest [] _ .start
  rw [List.nil_append] at hscanned
  obtain ⟨t, ht⟩ : ∃ t, t = r.1 := ⟨_, rfl⟩
  change Scanned (rest.take used) r.1 at hscanned
  rw [← ht] at hscanned ⊢
  have hline : restOfLine rest = rest.take used ++ restOfLine (rest.drop used) := by
    conv_lhs => rw [← List.take_append_drop used rest]
    exact restOfLine_append hscanned.free _
  refine ⟨hscanned.free, ?_⟩
  obtain ⟨stop, hends⟩ : ∃ stop, valueScanner.ends ⟨.leadingSpace, []⟩ rest = stop := ⟨_, rfl⟩
  have hstop : (stop = .noMore ∧ rest.drop used = []) ∨ ∃ data rest', stop = .stopped data true ∧
      rest.drop used = data :: rest' ∧ valueScanner.stops t data = true := by
    cases stop with
    | noMore =>
      have hused : used = rest.length := Scanner.of_ends_noMore hends
      exact .inl ⟨rfl, by rw [hused, List.drop_length]⟩
    | stopped data seeked =>
      have hseeked : seeked = true := by
        unfold Scanner.ends at hends
        split at hends <;> cases hends
        rfl
      subst hseeked
      obtain ⟨rest', hdrop, hstops⟩ := Scanner.of_ends_stopped hends
      rw [ht]
      exact .inr ⟨data, rest', rfl, hdrop, hstops⟩
  rw [hends]
  by_cases hstate : t.state = .leadingSpace
  · -- a line of spaces, or none
    refine .inl ⟨hstate, ?_⟩
    obtain ⟨-, hspaces⟩ := hscanned.leading hstate
    have hnil : restOfLine (rest.drop used) = [] := by
      rcases hstop with ⟨-, hdrop⟩ | ⟨data, rest', -, hdrop, hstops⟩
      · rw [hdrop]
        rfl
      · simp only [valueScanner, hstate, Bool.and_eq_true, beq_iff_eq] at hstops
        rw [hdrop, hstops.2, restOfLine_eoln]
    rw [hline, hnil, List.append_nil, nextWord, List.dropWhile_eq_nil_iff.2 hspaces]
  · refine .inr ⟨hstate, ?_⟩
    have hnext : (∀ c ∈ (restOfLine (rest.drop used)).head?, isSpace c = false) ∧
        (t.state = .readValue → restOfLine (rest.drop used) = []) ∧
        ∀ data rest', rest.drop used = data :: rest' →
          (data = flipperFormatEoln ↔ restOfLine (rest.drop used) = []) := by
      rcases hstop with ⟨-, hdrop⟩ | ⟨data, rest', -, hdrop, hstops⟩
      · rw [hdrop]
        exact ⟨by simp [restOfLine], fun _ => rfl, by simp⟩
      · have hspace : isSpace data = false ∧
            (t.state = .readValue → data = flipperFormatEoln) := by
          obtain ⟨state, value⟩ := t
          cases state with
          | leadingSpace => exact absurd rfl hstate
          | readValue =>
            simp only [valueScanner, Bool.and_eq_true, Bool.not_eq_true', beq_iff_eq] at hstops
            exact ⟨hstops.1, fun _ => hstops.2⟩
          | trailingSpace => exact ⟨by simpa [valueScanner] using hstops, fun h => by cases h⟩
        rw [hdrop]
        by_cases heoln : data = flipperFormatEoln
        · rw [heoln, restOfLine_eoln]
          refine ⟨by simp, fun _ => rfl, fun data' rest'' h => ?_⟩
          rw [← (List.cons.inj h).1]
          exact iff_of_true rfl rfl
        · rw [restOfLine_cons heoln]
          refine ⟨?_, fun hreading => absurd (hspace.2 hreading) heoln, fun data' rest'' h => ?_⟩
          · rintro c ⟨⟩
            exact hspace.1
          · rw [← (List.cons.inj h).1]
            exact iff_of_false heoln (List.cons_ne_nil _ _)
    obtain ⟨spaces, trailing, hbefore, hfirst⟩ :=
      hscanned.firstWord hstate hnext.2.1 hnext.1
    refine ⟨spaces, trailing, ?_, hfirst, ?_⟩
    · rw [hline, hbefore, List.append_assoc, List.append_assoc]
    · rcases hstop with ⟨hmore, hdrop⟩ | ⟨data, rest', hdata, hdrop, -⟩
      · exact .inl ⟨hmore, hdrop⟩
      · exact .inr ⟨data, hdata, hnext.2.2 data rest' hdrop⟩

theorem lineScanner_used (bytes : List UInt8) :
    bytes.take (lineScanner.used [] bytes) = restOfLine bytes := by
  have hfree := @Scanner.scan_inv _ lineScanner (fun before _ => flipperFormatEoln ∉ before) ?_
    bytes [] [] List.not_mem_nil
  · rw [List.nil_append] at hfree
    obtain ⟨stop, hends⟩ : ∃ stop, lineScanner.ends [] bytes = stop := ⟨_, rfl⟩
    conv_rhs => rw [← List.take_append_drop (lineScanner.used [] bytes) bytes]
    rw [restOfLine_append hfree]
    cases stop with
    | noMore =>
      rw [Scanner.of_ends_noMore hends, List.drop_length]
      exact (List.append_nil _).symm
    | stopped data seeked =>
      have hseeked : seeked = true := by
        unfold Scanner.ends at hends
        split at hends <;> cases hends
        rfl
      subst hseeked
      obtain ⟨rest, hdrop, hstop⟩ := Scanner.of_ends_stopped hends
      have hdata : data = flipperFormatEoln := by simpa [lineScanner] using hstop
      rw [hdrop, hdata, restOfLine_eoln, List.append_nil]
  · intro before str data hfree hstop
    have hdata : data ≠ flipperFormatEoln := by simpa [lineScanner] using hstop
    rw [List.mem_append, List.mem_singleton, not_or]
    exact ⟨hfree, Ne.symm hdata⟩

section Words

variable (hv : StreamOk v R)
include hv

theorem readValue_ensures {f : File} {line tail : List UInt8} (hline : LineAt f line tail) :
    Ensures R (readValue v) f fun read f' => f'.data = f.data ∧
      read = (nextWord line).map (fun r => (r.1, decide (r.2 = []))) ∧
      ∀ word line', nextWord line = some (word, line') → LineAt f' line' tail ∧
        wordCount line = wordCount line' + 1 ∧ (line' ≠ [] → 0 < wordCount line') := by
  refine (scan_ensures hv valueScanner ⟨.leadingSpace, []⟩).bind ?_
  rintro r f' ⟨rfl, rfl⟩
  obtain ⟨htaken, hcases⟩ := valueScanner_ends f.rest
  rw [hline.restOfLine] at hcases
  obtain ⟨used, hused⟩ : ∃ used, used = valueScanner.used ⟨.leadingSpace, []⟩ f.rest := ⟨_, rfl⟩
  obtain ⟨t, ht⟩ : ∃ t, t = (valueScanner.scan ⟨.leadingSpace, []⟩ f.rest).1 := ⟨_, rfl⟩
  simp only [← hused, ← ht] at htaken hcases ⊢
  rcases hcases with ⟨hstate, hnone⟩ | ⟨hstate, spaces, trailing, hsplit, hfirst, hends⟩
  · rw [hnone]
    cases valueScanner.ends ⟨.leadingSpace, []⟩ f.rest with
    | noMore =>
      refine (streamEof_ensures hv).bind_eq (Ensures.pure ⟨rfl, ?_, by simp⟩)
      rw [if_neg fun h => h.1 hstate]
      rfl
    | stopped data seeked =>
      refine Ensures.pure ⟨rfl, ?_, by simp⟩
      rw [if_neg fun h => h.1 hstate]
      rfl
  · have hword := hfirst.nextWord
    have hcount := hfirst.wordCount
    rw [← hsplit] at hword hcount
    have hleft : LineAt (f.advance used) (restOfLine (f.rest.drop used)) tail := by
      have hof := @LineAt.of_split f (f.advance used) line tail (f.rest.take used) hline
        (by rw [Cursor.rest_advance, List.take_append_drop]) htaken
      rwa [Cursor.rest_advance] at hof
    have hrest : ∀ word line', nextWord line = some (word, line') →
        LineAt (f.advance used) line' tail ∧ wordCount line = wordCount line' + 1 ∧
          (line' ≠ [] → 0 < wordCount line') := by
      intro word line' h
      rw [hword] at h
      obtain ⟨-, rfl⟩ := Prod.mk.inj (Option.some.inj h)
      exact ⟨hleft, hcount, hfirst.wordCount_pos⟩
    rcases hends with ⟨hmore, hdrop⟩ | ⟨data, hdata, hlast⟩
    · rw [hmore]
      refine (streamEof_ensures hv).bind_eq (Ensures.pure ⟨rfl, ?_, hrest⟩)
      have heof : (f.advance used).pos = (f.advance used).data.length := by
        have hlength := congrArg List.length hdrop
        rw [← Cursor.rest_advance, Cursor.length_rest, List.length_nil] at hlength
        have := (f.advance used).pos_le
        omega
      have hnil : restOfLine (f.rest.drop used) = [] := by rw [hdrop]; rfl
      rw [if_pos ⟨hstate, decide_eq_true heof⟩, hword, hnil]
      rfl
    · rw [hdata]
      refine Ensures.pure ⟨rfl, ?_, hrest⟩
      rw [if_pos ⟨hstate, rfl⟩, hword, Option.map_some, Option.some.injEq, Prod.mk.injEq]
      exact ⟨rfl, by rw [Bool.eq_iff_iff, beq_iff_eq, decide_eq_true_eq, hlast]⟩

theorem readValues_ensures (type : FlipperStreamValue α) : ∀ (left : ℕ) {f : File}
    {line tail : List UInt8}, LineAt f line tail →
    Ensures R (readValues v type left) f fun read f' => f'.data = f.data ∧
      read = (parseValues type left line).map Prod.fst ∧
      ∀ data line', parseValues type left line = some (data, line') → LineAt f' line' tail
  | 0, f, line, tail, hline => by
    refine Ensures.pure ⟨rfl, rfl, fun data line' h => ?_⟩
    rw [parseValues_zero, Option.some.injEq, Prod.mk.injEq] at h
    rw [← h.2]
    exact hline
  | left + 1, f, line, tail, hline => by
    refine (readValue_ensures hv hline).bind ?_
    rintro read f₁ ⟨hdata, rfl, hrest⟩
    cases hword : nextWord line with
    | none =>
      refine Ensures.pure ⟨hdata, ?_, fun data line' h => ?_⟩
      · simp only [parseValues, hword, Option.map_none]
      · simp [parseValues, hword] at h
    | some r =>
      obtain ⟨word, line₁⟩ := r
      obtain ⟨hline₁, -⟩ := hrest word line₁ hword
      simp only [Option.map_some]
      cases hscan : type.scan word with
      | none =>
        refine Ensures.pure ⟨hdata, ?_, fun data line' h => ?_⟩
        · simp only [parseValues, hword, hscan, Option.map_none]
        · simp [parseValues, hword, hscan] at h
      | some first =>
        simp only [decide_eq_true_eq]
        by_cases hshort : line₁ = [] ∧ left ≠ 0
        · rw [if_pos hshort]
          refine Ensures.pure ⟨hdata, ?_, fun data line' h => ?_⟩
          · simp only [parseValues, hword, hscan, if_pos hshort, Option.map_none]
          · simp only [parseValues, hword, hscan, if_pos hshort, reduceCtorEq] at h
        · rw [if_neg hshort]
          refine (readValues_ensures type left hline₁).bind ?_
          rintro read f₂ ⟨hdata', rfl, hrest'⟩
          refine Ensures.pure ⟨hdata'.trans hdata, ?_, fun data line' h => ?_⟩
          · simp only [parseValues, hword, hscan, if_neg hshort, Option.map_map,
              Function.comp_def]
          · simp only [parseValues, hword, hscan, if_neg hshort] at h
            obtain ⟨⟨more, line₂⟩, hparse, heq⟩ := Option.map_eq_some_iff.1 h
            obtain ⟨-, rfl⟩ := Prod.mk.inj heq
            exact hrest' more line₂ hparse

theorem countValues_ensures : ∀ (rounds count : ℕ) {f : File} {line tail : List UInt8},
    LineAt f line tail → wordCount line < rounds → count < 2 ^ 32 →
    Ensures R (countValues v rounds count) f fun r f' => f'.data = f.data ∧
      r = (decide (0 < wordCount line), (count + wordCount line) % 2 ^ 32)
  | 0, _, _, _, _, _, hrounds, _ => absurd hrounds (Nat.not_lt_zero _)
  | rounds + 1, count, f, line, tail, hline, hrounds, hcount => by
    refine (readValue_ensures hv hline).bind ?_
    rintro read f₁ ⟨hdata, rfl, hrest⟩
    cases hword : nextWord line with
    | none =>
      have hzero : wordCount line = 0 := by
        unfold nextWord at hword
        split at hword
        · next hspaces =>
          have hall := wordsFrom_spaces (List.dropWhile_eq_nil_iff.1 hspaces) false (fun _ => rfl) []
          rw [List.append_nil] at hall
          exact hall
        · cases hword
      refine Ensures.pure ⟨hdata, ?_⟩
      rw [hzero, Nat.add_zero, Nat.mod_eq_of_lt hcount]
      rfl
    | some r =>
      obtain ⟨word, line₁⟩ := r
      obtain ⟨hline₁, hmore, hpos⟩ := hrest word line₁ hword
      simp only [Option.map_some, decide_eq_true_eq]
      by_cases hlast : line₁ = []
      · rw [if_pos hlast]
        refine Ensures.pure ⟨hdata, ?_⟩
        rw [hmore, hlast]
        rfl
      · rw [if_neg hlast]
        refine (countValues_ensures rounds _ hline₁ (by omega) (Nat.mod_lt _ (by norm_num))).mono ?_
        rintro r f₂ ⟨hdata', rfl⟩
        refine ⟨hdata'.trans hdata, ?_⟩
        rw [Prod.mk.injEq, decide_eq_decide, hmore]
        exact ⟨iff_of_true (hpos hlast) (Nat.succ_pos _), by omega⟩

theorem readLine_ensures {f : File} {line tail : List UInt8} (hline : LineAt f line tail) :
    Ensures R (readLine v) f fun r f' => f'.data = f.data ∧
      r.2 = line.filter (· ≠ flipperFormatEolr) ∧ r.1 = (r.2.length != 0) ∧ f'.rest = tail := by
  refine (scan_ensures hv lineScanner []).bind ?_
  rintro r f' ⟨rfl, rfl⟩
  refine Ensures.pure ⟨rfl, ?_, rfl, ?_⟩
  · rw [lineScanner_scan, hline.restOfLine]
  · have htaken := lineScanner_used f.rest
    have hsplit := List.take_append_drop (lineScanner.used [] f.rest) f.rest
    rw [htaken, hline.restOfLine, ← Cursor.rest_advance] at hsplit
    rw [hline.rest] at hsplit ⊢
    exact List.append_cancel_left hsplit

end Words

end FlipperFormatStream

end KiisuFirmware
