import KiisuFirmware.FlipperFormat
import KiisuFirmware.Proofs.StreamClient

/-!
# How a text in the Flipper format is read

The functions of `flipper_format_stream.c` on a stream that stands for a text find what the text
says. Each scanner is first run over the text as a whole; `scan_ensures` then gives the loop over
the buffers.
-/

namespace KiisuFirmware

open FlipperText

namespace FlipperText

/-! ## Lines -/

section Cons

variable {data : UInt8} {line : List UInt8}

theorem mem_delimiter_cons (h : data ≠ flipperFormatDelimiter) :
    flipperFormatDelimiter ∈ data :: line ↔ flipperFormatDelimiter ∈ line := by
  rw [List.mem_cons, or_iff_right (Ne.symm h)]

theorem delimiterOf_cons (h : data ≠ flipperFormatDelimiter) :
    delimiterOf (data :: line) = delimiterOf line + 1 := by
  rw [delimiterOf, List.takeWhile_cons_of_pos (by simpa using h), List.length_cons]
  rfl

theorem keyText_cons (h : data ≠ flipperFormatDelimiter) (hreturn : data ≠ flipperFormatEolr) :
    keyText (data :: line) = data :: keyText line := by
  rw [keyText, List.takeWhile_cons_of_pos (by simpa using h),
    List.filter_cons_of_pos (by simpa using hreturn)]
  rfl

theorem keyText_return : keyText (flipperFormatEolr :: line) = keyText line := by
  rw [keyText, List.takeWhile_cons_of_pos (by decide), List.filter_cons_of_neg (by decide)]
  rfl

theorem keyText_delimiter : keyText (flipperFormatDelimiter :: line) = [] := by
  rw [keyText, List.takeWhile_cons_of_neg (by decide)]
  rfl

theorem keyOf_return : keyOf (flipperFormatEolr :: line) = keyOf line := by
  have hmem : flipperFormatDelimiter ∈ flipperFormatEolr :: line ↔ flipperFormatDelimiter ∈ line :=
    mem_delimiter_cons (by decide)
  simp only [keyOf, keyText_return, hmem]

theorem keyOf_delimiter : keyOf (flipperFormatDelimiter :: line) = none := by
  rw [keyOf, keyText_delimiter, if_neg]
  exact fun h => h.2.1 rfl

theorem keyOf_comment : keyOf (flipperFormatComment :: line) = none := by
  rw [keyOf, keyText_cons (by decide) (by decide), if_neg]
  exact fun h => h.2.2 rfl

theorem keyOf_cons (h : data ≠ flipperFormatDelimiter) (hreturn : data ≠ flipperFormatEolr)
    (hcomment : data ≠ flipperFormatComment) : keyOf (data :: line) =
      if flipperFormatDelimiter ∈ line then some (data :: keyText line) else none := by
  simp only [keyOf, keyText_cons h hreturn, mem_delimiter_cons h]
  simp [hcomment]

end Cons

end FlipperText

namespace FlipperFormatStream

/-! ## Keys -/

theorem keyScanner_skip : ∀ {line : List UInt8} (key : List UInt8), flipperFormatEoln ∉ line →
    keyScanner.scan ⟨key, false, false⟩ line = (⟨key, false, false⟩, none)
  | [], key, _ => rfl
  | data :: line, key, h => by
    rw [List.mem_cons, not_or] at h
    have hstep : keyScanner.step ⟨key, false, false⟩ data = ⟨key, false, false⟩ := by
      simp only [keyScanner]
      rw [if_neg (Ne.symm h.1)]
      split_ifs <;> simp_all
    have hstop : ¬keyScanner.stops ⟨key, false, false⟩ data = true := by simp [keyScanner]
    rw [Scanner.scan, if_neg hstop, hstep, keyScanner_skip key h.2]
    rfl

theorem keyScanner_collect : ∀ {line : List UInt8} (key : List UInt8), flipperFormatEoln ∉ line →
    keyScanner.scan ⟨key, true, false⟩ line =
      (⟨key ++ keyText line, true, false⟩,
        if flipperFormatDelimiter ∈ line then some (delimiterOf line) else none)
  | [], key, _ => by simp [Scanner.scan, keyText]
  | data :: line, key, h => by
    rw [List.mem_cons, not_or] at h
    rw [Scanner.scan]
    by_cases hdelimiter : data = flipperFormatDelimiter
    · subst hdelimiter
      rw [if_pos (by simp [keyScanner]), keyText_delimiter, List.append_nil]
      simp [delimiterOf]
    · rw [if_neg (by simp [keyScanner, hdelimiter])]
      have hindex : (if flipperFormatDelimiter ∈ data :: line then some (delimiterOf (data :: line))
          else none) =
          (if flipperFormatDelimiter ∈ line then some (delimiterOf line) else none).map (· + 1) := by
        simp only [mem_delimiter_cons hdelimiter, delimiterOf_cons hdelimiter]
        split_ifs <;> rfl
      by_cases hreturn : data = flipperFormatEolr
      · have hstep : keyScanner.step ⟨key, true, false⟩ data = ⟨key, true, false⟩ := by
          simp only [keyScanner]
          rw [if_neg (Ne.symm h.1), if_pos hreturn]
        simp only [hstep, keyScanner_collect key h.2, hindex]
        rw [hreturn, keyText_return]
      · have hstep : keyScanner.step ⟨key, true, false⟩ data = ⟨key ++ [data], true, false⟩ := by
          simp only [keyScanner]
          rw [if_neg (Ne.symm h.1), if_neg hreturn, if_neg (by simp), if_neg hdelimiter]
          simp
        simp only [hstep, keyScanner_collect (key ++ [data]) h.2, hindex,
          keyText_cons hdelimiter hreturn, List.append_assoc, List.cons_append, List.nil_append]

theorem keyScanner_line : ∀ {line : List UInt8}, flipperFormatEoln ∉ line →
    ∃ t, keyScanner.scan .start line = (t, (keyOf line).map fun _ => delimiterOf line) ∧
      ∀ key, keyOf line = some key → t.key = key
  | [], _ => ⟨.start, rfl, by simp [keyOf, keyText]⟩
  | data :: line, h => by
    rw [List.mem_cons, not_or] at h
    rw [Scanner.scan, if_neg (by simp [keyScanner, KeyScan.start])]
    by_cases hreturn : data = flipperFormatEolr
    · have hstep : keyScanner.step .start data = .start := by
        simp only [keyScanner]
        rw [if_neg (Ne.symm h.1), if_pos hreturn]
      obtain ⟨t, hscan, ht⟩ := keyScanner_line h.2
      rw [hstep, hscan]
      subst hreturn
      refine ⟨t, ?_, by rw [keyOf_return]; exact ht⟩
      rw [keyOf_return, delimiterOf_cons (by decide)]
      cases keyOf line <;> rfl
    · by_cases hcomment : data = flipperFormatComment
      · have hstep : keyScanner.step .start data = ⟨[], false, false⟩ := by
          simp only [keyScanner]
          rw [if_neg (Ne.symm h.1), if_neg hreturn, if_pos ⟨hcomment, rfl⟩]
          rfl
        rw [hstep, keyScanner_skip [] h.2, hcomment, keyOf_comment]
        exact ⟨⟨[], false, false⟩, rfl, by simp⟩
      · by_cases hdelimiter : data = flipperFormatDelimiter
        · have hstep : keyScanner.step .start data = ⟨[], false, false⟩ := by
            simp only [keyScanner]
            rw [if_neg (Ne.symm h.1), if_neg hreturn, if_neg (by simp [hcomment]),
              if_pos hdelimiter]
            rfl
          rw [hstep, keyScanner_skip [] h.2, hdelimiter, keyOf_delimiter]
          exact ⟨⟨[], false, false⟩, rfl, by simp⟩
        · have hstep : keyScanner.step .start data = ⟨[data], true, false⟩ := by
            simp only [keyScanner]
            rw [if_neg (Ne.symm h.1), if_neg hreturn, if_neg (by simp [hcomment]),
              if_neg hdelimiter]
            rfl
          rw [hstep, keyScanner_collect [data] h.2, keyOf_cons hdelimiter hreturn hcomment,
            delimiterOf_cons hdelimiter]
          refine ⟨⟨[data] ++ keyText line, true, false⟩, ?_, ?_⟩
          · split_ifs <;> rfl
          · intro key hkey
            split_ifs at hkey
            exact Option.some.inj hkey

theorem keyScanner_text : ∀ (lines : List (List UInt8)) {last : List UInt8}, LineFree lines last →
    ∃ t, keyScanner.scan .start (bytes lines last) = (t, (firstKey lines last).map Prod.snd) ∧
      ∀ r, firstKey lines last = some r → t.key = r.1
  | [], last, h => by
    obtain ⟨t, hscan, ht⟩ := keyScanner_line h.2
    refine ⟨t, ?_, ?_⟩
    · rw [bytes, hscan, firstKey, Option.map_map]
      rfl
    · intro r hr
      obtain ⟨key, hkey, rfl⟩ := Option.map_eq_some_iff.1 hr
      exact ht key hkey
  | line :: lines, last, h => by
    obtain ⟨t, hscan, ht⟩ := keyScanner_line (h.1 line List.mem_cons_self)
    rw [bytes, firstKey]
    cases hkey : keyOf line with
    | some key =>
      rw [hkey] at hscan
      refine ⟨t, keyScanner.scan_append_some hscan _, ?_⟩
      intro r hr
      simp only [Option.some.injEq] at hr
      rw [← hr]
      exact ht key hkey
    | none =>
      rw [hkey] at hscan
      have hlines : LineFree lines last :=
        ⟨fun l hl => h.1 l (List.mem_cons_of_mem line hl), h.2⟩
      obtain ⟨t', hscan', ht'⟩ := keyScanner_text lines hlines
      have hstop : ¬keyScanner.stops t flipperFormatEoln = true := by
        simp [keyScanner, flipperFormatEoln, flipperFormatDelimiter]
      have hstep : keyScanner.step t flipperFormatEoln = .start := by
        simp [keyScanner]
      refine ⟨t', ?_, ?_⟩
      · rw [keyScanner.scan_append_none hscan, Scanner.scan, if_neg hstop, hstep, hscan']
        simp only [Option.map_map, Prod.mk.injEq, true_and]
        congr 1
        funext r
        simp only [Function.comp_apply]
        omega
      · intro r hr
        obtain ⟨r', hr', rfl⟩ := Option.map_eq_some_iff.1 hr
        exact ht' r' hr'

end FlipperFormatStream

end KiisuFirmware
