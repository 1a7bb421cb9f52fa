import KiisuFirmware.Proofs.BufferedClient
import KiisuFirmware.Proofs.Strint
import KiisuFirmware.Run

/-!
# Dictionaries of keys keep a list of keys

The file of a dictionary is made of lines, and its stream is always in front of one (`At`). A line
stands for a key or for none (`keyOf`). A dictionary does what the list of these keys does
(`keys_dict_consistent`), as long as a key is only deleted where the first line that stands for it
is exactly as long as the dictionary takes it to be.
-/

namespace KiisuFirmware

namespace KeysDict

/-- The text of these lines. -/
def text (lines : List (List UInt8)) : List UInt8 := lines.flatMap (· ++ [LF])

/-- The lines of a text, each without its end. -/
def linesOf : List UInt8 → List (List UInt8)
  | [] => []
  | c :: cs =>
    if c = LF then [] :: linesOf cs
    else
      match linesOf cs with
      | [] => []
      | line :: lines => (c :: line) :: lines

/-- The symbols a line stands for a key with, if it does. -/
def symbolsOf (keySize : ℕ) (line : List UInt8) : Option (List UInt8) :=
  let str := line.filter (· ≠ CR) ++ [LF]
  let symbols := str.take (keySizeSymbols keySize - 1)
  if str.head? = some COMMENT then none
  else if symbols.length = keySizeSymbols keySize - 1 then some symbols else none

def keyOf (junk : List UInt8 → UInt8) (keySize : ℕ) (line : List UInt8) : Option Key :=
  (symbolsOf keySize line).map (strToInt junk)

/-- The text of a file once it is loaded: its last line has an end. -/
def terminated (data : List UInt8) : List UInt8 :=
  if data = [] ∨ data.getLast? = some LF then data else data ++ [LF]

/-- The file is made of these lines, and its position is behind the first of them. -/
structure At (f : File) (before after : List (List UInt8)) : Prop where
  data : f.data = text before ++ text after
  pos : f.pos = (text before).length
  ends : ∀ line ∈ before ++ after, LF ∉ line

/-- There is room for a key that is added, and the line that goes with a key that is deleted is as
long as the dictionary takes it to be. -/
def StepOk (junk : List UInt8 → UInt8) (dict : KeysDict) : Call → Prop
  | .addKey key => key.length = dict.keySize ∧
      dict.stream.file.data.length + keySizeSymbols dict.keySize + 1 < 2 ^ 31
  | .deleteKey key => key.length = dict.keySize ∧
      ∀ line ∈ (linesOf dict.stream.file.data).find? fun line =>
        keyOf junk dict.keySize line = some key,
      line.length + 1 = keySizeSymbols dict.keySize
  | _ => True

/-! ## Lines -/

@[simp] theorem text_nil : text [] = [] := rfl

@[simp] theorem text_cons (line : List UInt8) (lines : List (List UInt8)) :
    text (line :: lines) = line ++ LF :: text lines := by
  simp [text]

@[simp] theorem text_append (before after : List (List UInt8)) :
    text (before ++ after) = text before ++ text after :=
  List.flatMap_append

theorem length_le_text : ∀ lines : List (List UInt8), lines.length ≤ (text lines).length
  | [] => Nat.zero_le _
  | line :: lines => by
    have := length_le_text lines
    simp only [text_cons, List.length_append, List.length_cons]
    omega

theorem linesOf_line : ∀ {line : List UInt8}, LF ∉ line → ∀ rest : List UInt8,
    linesOf (line ++ LF :: rest) = line :: linesOf rest
  | [], _, rest => by simp [linesOf]
  | c :: line, hline, rest => by
    obtain ⟨hc, hline⟩ := not_or.1 (mt List.mem_cons.2 hline)
    rw [List.cons_append, linesOf, if_neg (Ne.symm hc), linesOf_line hline]

theorem linesOf_text : ∀ {lines : List (List UInt8)}, (∀ line ∈ lines, LF ∉ line) →
    linesOf (text lines) = lines
  | [], _ => rfl
  | line :: lines, h => by
    rw [text_cons, linesOf_line (h line List.mem_cons_self),
      linesOf_text fun l hl => h l (List.mem_cons_of_mem _ hl)]

theorem exists_lines : ∀ {data : List UInt8}, (data = [] ∨ data.getLast? = some LF) →
    ∃ lines, data = text lines ∧ ∀ line ∈ lines, LF ∉ line
  | [], _ => ⟨[], rfl, nofun⟩
  | c :: cs, h => by
    have hcs : cs = [] ∨ cs.getLast? = some LF := by
      cases cs with
      | nil => exact .inl rfl
      | cons d ds => exact .inr (by simpa using h)
    obtain ⟨lines, hlines, hends⟩ := exists_lines hcs
    by_cases hc : c = LF
    · refine ⟨[] :: lines, by rw [text_cons, ← hlines, hc]; rfl, ?_⟩
      rintro line hline
      rcases List.mem_cons.1 hline with rfl | hline
      · exact List.not_mem_nil
      · exact hends line hline
    · cases lines with
      | nil =>
        rw [text_nil] at hlines
        subst hlines
        simp [hc] at h
      | cons line lines =>
        refine ⟨(c :: line) :: lines, by rw [hlines, text_cons, text_cons]; rfl, ?_⟩
        rintro line' hline'
        rcases List.mem_cons.1 hline' with rfl | hline'
        · rw [List.mem_cons, not_or]
          exact ⟨Ne.symm hc, hends line List.mem_cons_self⟩
        · exact hends line' (List.mem_cons_of_mem _ hline')

namespace At

variable {f : File} {before after : List (List UInt8)} {line : List UInt8}

theorem rest (h : At f before after) : f.rest = text after := by
  rw [Cursor.rest, h.data, h.pos, List.drop_left]

theorem length (h : At f before after) :
    f.data.length = (text before).length + (text after).length := by
  rw [h.data, List.length_append]

theorem next (h : At f before (line :: after)) :
    At (f.advance (line.length + 1)) (before ++ [line]) after where
  data := by
    rw [Cursor.advance_data, h.data]
    simp
  pos := by
    rw [Cursor.advance_pos, h.pos, h.length]
    simp only [text_cons, text_append, text_nil, List.length_append, List.length_cons,
      List.length_nil]
    omega
  ends := by
    rw [List.append_assoc]
    exact h.ends

theorem rewind (h : At f before after) : At (f.seek 0) [] (before ++ after) where
  data := by
    rw [Cursor.seek_data, h.data]
    simp
  pos := Cursor.seek_pos_of_le (Nat.zero_le _)
  ends := h.ends

theorem lines (h : At f before after) : linesOf f.data = before ++ after := by
  rw [h.data, ← text_append, linesOf_text h.ends]

end At

/-! ## Reading lines -/

theorem scan_line : ∀ {line : List UInt8}, LF ∉ line → ∀ str rest : List UInt8,
    lineScanner.scan str (line ++ LF :: rest) =
      (str ++ line.filter (· ≠ CR), some line.length)
  | [], _, str, rest => by simp [Scanner.scan, lineScanner]
  | c :: line, hline, str, rest => by
    obtain ⟨hc, hline⟩ := not_or.1 (mt List.mem_cons.2 hline)
    have hstop : lineScanner.stops str c = false := by
      simpa [lineScanner] using Ne.symm hc
    rw [List.cons_append, Scanner.scan, hstop]
    simp only [Bool.false_eq_true, if_false]
    rw [scan_line hline]
    by_cases hcr : c = CR
    · simp [lineScanner, hcr]
    · simp [lineScanner, hcr]

section Reading

variable {σ : Type} {v : StreamVTable σ} {R : σ → File → Prop} (hv : ReadOk v R)
include hv

theorem readLineLoop_ensures : ∀ (rounds : ℕ) {str t : List UInt8} {f : File} {i : ℕ},
    f.rest.length < rounds → lineScanner.scan str f.rest = (t, some i) →
    Ensures R (v.readLineLoop rounds str) f fun r f' => r = t ++ [LF] ∧ f' = f.advance (i + 1)
  | 0, _, _, f, _, hrounds, _ => absurd hrounds (Nat.not_lt_zero _)
  | rounds + 1, str, t, f, i, hrounds, hscan => by
    have hsplit : f.rest = f.peek SCAN_BUFFER_SIZE ++ (f.advance SCAN_BUFFER_SIZE).rest := by
      rw [Cursor.rest_advance, Cursor.peek_eq, List.take_append_drop]
    refine (streamRead_ensures hv SCAN_BUFFER_SIZE).bind_eq ?_
    obtain ⟨buffer, hbuffer⟩ : ∃ buffer, buffer = f.peek SCAN_BUFFER_SIZE := ⟨_, rfl⟩
    have hadvance : f.advance SCAN_BUFFER_SIZE = f.advance buffer.length := by
      ext1
      · rfl
      · rw [Cursor.advance_pos, Cursor.advance_pos, hbuffer, Cursor.length_peek]
        omega
    have hbound : buffer.length ≤ SCAN_BUFFER_SIZE := by
      rw [hbuffer, Cursor.peek_eq]
      exact List.length_take_le _ _
    have hpos : (f.advance SCAN_BUFFER_SIZE).pos = f.pos + buffer.length := by
      rw [Cursor.advance_pos_peek, hbuffer]
    have hi : i < f.rest.length := lineScanner.scan_lt (by rw [hscan])
    rw [← hbuffer] at hsplit ⊢
    have hempty : buffer.length ≠ 0 := by
      rw [hbuffer, Cursor.peek_eq, List.length_take, SCAN_BUFFER_SIZE]
      omega
    rw [if_neg hempty]
    obtain ⟨⟨t', stop⟩, hbuffered⟩ : ∃ r, lineScanner.scan str buffer = r := ⟨_, rfl⟩
    rw [hbuffered]
    cases stop with
    | none =>
      have happend := lineScanner.scan_append_none hbuffered (f.advance SCAN_BUFFER_SIZE).rest
      rw [← hsplit, hscan, Prod.mk.injEq] at happend
      obtain ⟨j, hj, rfl⟩ := Option.map_eq_some_iff.1 happend.2.symm
      have hlen := congrArg List.length hsplit
      rw [List.length_append] at hlen
      refine (readLineLoop_ensures rounds (by omega) (Prod.ext happend.1.symm hj)).mono ?_
      rintro r f' ⟨rfl, rfl⟩
      refine ⟨rfl, ?_⟩
      rw [hadvance, Cursor.advance_advance]
      congr 1
      omega
    | some j =>
      have happend := lineScanner.scan_append_some hbuffered (f.advance SCAN_BUFFER_SIZE).rest
      rw [← hsplit, hscan, Prod.mk.injEq, Option.some.injEq] at happend
      obtain ⟨rfl, rfl⟩ := happend
      have hi' : i < buffer.length := lineScanner.scan_lt (by rw [hbuffered])
      have hplace : f.pos + (i + 1) ≤ f.data.length := by
        rw [Cursor.length_rest] at hi
        omega
      refine (streamSeek_ensures_of_le (f := f.advance SCAN_BUFFER_SIZE) hv _ .fromCurrent
        (p := f.pos + (i + 1)) ?_ hplace ?_ ?_).bind_eq ?_
      · simp only [StreamOffset.origin, hpos]
        push_cast
        ring
      · simp only [SCAN_BUFFER_SIZE] at hbound
        omega
      · omega
      refine Ensures.pure ⟨rfl, ?_⟩
      have hplace' : f.pos + (i + 1) ≤ (f.advance SCAN_BUFFER_SIZE).data.length := hplace
      ext1
      · rfl
      · rw [Cursor.seek_pos_of_le hplace', Cursor.advance_pos]
        omega

variable {f : File} {before after : List (List UInt8)} {line : List UInt8}

theorem streamReadLine_ensures (h : At f before (line :: after)) :
    Ensures R v.streamReadLine f fun r f' =>
      r = (true, line.filter (· ≠ CR) ++ [LF]) ∧ f' = f.advance (line.length + 1) := by
  have hline : LF ∉ line := h.ends line (List.mem_append_right _ List.mem_cons_self)
  have hscan : lineScanner.scan [] f.rest = (line.filter (· ≠ CR), some line.length) := by
    rw [h.rest, text_cons, scan_line hline, List.nil_append]
  refine (streamSize_ensures hv).bind_eq ?_
  refine (readLineLoop_ensures hv (f.data.length + 1) ?_ hscan).bind_eq (Ensures.pure ⟨?_, rfl⟩)
  · rw [Cursor.length_rest]
    omega
  · simp

theorem streamReadLine_ensures_end (h : At f before []) :
    Ensures R v.streamReadLine f fun r f' => r = (false, []) ∧ f' = f := by
  have hend : f.data.length ≤ f.pos := by
    rw [h.length, h.pos]
    simp
  refine (streamSize_ensures hv).bind_eq ?_
  have hloop : Ensures R (v.readLineLoop (f.data.length + 1) []) f
      fun str f' => str = [] ∧ f' = f := by
    refine (streamRead_ensures hv SCAN_BUFFER_SIZE).bind_eq ?_
    rw [Cursor.peek_of_end hend, Cursor.advance_of_end hend]
    exact Ensures.pure ⟨rfl, rfl⟩
  exact hloop.bind_eq (Ensures.pure ⟨rfl, rfl⟩)

end Reading

section Loops

variable {v : StreamVTable BufferedFileStream} {R : BufferedFileStream → File → Prop}
  (hv : ReadOk v R) {keySize : ℕ} {f : File} {before after : List (List UInt8)}
include hv

theorem readKeyLine_ensures {line : List UInt8} (h : At f before (line :: after)) :
    Ensures R (readKeyLine v keySize) f fun r f' =>
      r = (symbolsOf keySize line).elim .other .key ∧ f' = f.advance (line.length + 1) := by
  refine (streamReadLine_ensures hv h).bind_eq ?_
  obtain ⟨str, hstr⟩ : ∃ str, str = line.filter (· ≠ CR) ++ [LF] := ⟨_, rfl⟩
  have hsymbols : symbolsOf keySize line = if str.head? = some COMMENT then none
      else if (str.take (keySizeSymbols keySize - 1)).length = keySizeSymbols keySize - 1 then
        some (str.take (keySizeSymbols keySize - 1)) else none := by
    rw [hstr]
    rfl
  rw [hsymbols, ← hstr]
  simp only [Bool.not_true, Bool.false_eq_true, if_false]
  by_cases hcomment : str.head? = some COMMENT
  · rw [if_pos hcomment, if_pos hcomment]
    exact Ensures.pure ⟨rfl, rfl⟩
  · rw [if_neg hcomment, if_neg hcomment]
    refine Ensures.pure ⟨?_, rfl⟩
    split_ifs <;> rfl

theorem readKeyLine_ensures_end (h : At f before []) :
    Ensures R (readKeyLine v keySize) f fun r f' => r = .endFile ∧ f' = f := by
  refine (streamReadLine_ensures_end hv h).bind_eq ?_
  exact Ensures.pure ⟨rfl, rfl⟩

theorem countKeys_ensures : ∀ (rounds total : ℕ) {f : File} {before after : List (List UInt8)},
    after.length < rounds → total + after.length < 2 ^ 32 → At f before after →
    Ensures R (countKeys v keySize rounds total) f fun n f' =>
      n = total + (after.filterMap (symbolsOf keySize)).length ∧ f'.data = f.data
  | 0, _, _, _, _, hrounds, _, _ => absurd hrounds (Nat.not_lt_zero _)
  | rounds + 1, total, f, before, [], _, _, h => by
    refine (readKeyLine_ensures_end hv h).bind_eq ?_
    exact Ensures.pure ⟨rfl, rfl⟩
  | rounds + 1, total, f, before, line :: after, hrounds, htotal, h => by
    rw [List.length_cons] at hrounds htotal
    refine (readKeyLine_ensures hv h).bind_eq ?_
    cases hline : symbolsOf keySize line with
    | none =>
      rw [List.filterMap_cons_none hline]
      exact countKeys_ensures rounds total (by omega) (by omega) h.next
    | some symbols =>
      have hword : sizeT ((total + 1 : ℕ) : ℤ) = total + 1 := sizeT_natCast (by omega)
      push_cast at hword
      rw [List.filterMap_cons_some hline, List.length_cons]
      simp only [Option.elim_some, hword]
      refine (countKeys_ensures rounds (total + 1) (by omega) (by omega) h.next).mono ?_
      rintro n f' ⟨rfl, hdata⟩
      exact ⟨by omega, hdata⟩

theorem getNextKeyLoop_ensures : ∀ (rounds : ℕ) {f : File} {before after : List (List UInt8)},
    after.length < rounds → At f before after →
    Ensures R (getNextKeyLoop v keySize rounds) f fun r f' =>
      (r = none ∧ after.filterMap (symbolsOf keySize) = [] ∧ At f' (before ++ after) []) ∨
      ∃ skipped line symbols rest, after = skipped ++ line :: rest ∧ r = some symbols ∧
        skipped.filterMap (symbolsOf keySize) = [] ∧ symbolsOf keySize line = some symbols ∧
        At f' (before ++ skipped ++ [line]) rest
  | 0, _, _, _, hrounds, _ => absurd hrounds (Nat.not_lt_zero _)
  | rounds + 1, f, before, [], _, h => by
    refine (readKeyLine_ensures_end hv h).bind_eq (Ensures.pure (.inl ⟨rfl, rfl, ?_⟩))
    rw [List.append_nil]
    exact h
  | rounds + 1, f, before, line :: after, hrounds, h => by
    rw [List.length_cons] at hrounds
    refine (readKeyLine_ensures hv h).bind_eq ?_
    cases hline : symbolsOf keySize line with
    | none =>
      refine (getNextKeyLoop_ensures rounds (by omega) h.next).mono ?_
      rintro r f' (⟨rfl, hnone, hat⟩ | ⟨skipped, line', symbols, rest, rfl, rfl, hskip, hkey, hat⟩)
      · refine .inl ⟨rfl, by rw [List.filterMap_cons_none hline, hnone], ?_⟩
        simpa using hat
      · refine .inr ⟨line :: skipped, line', symbols, rest, rfl, rfl, ?_, hkey, ?_⟩
        · rw [List.filterMap_cons_none hline, hskip]
        · simpa using hat
    | some symbols =>
      refine Ensures.pure (.inr ⟨[], line, symbols, after, rfl, rfl, rfl, hline, ?_⟩)
      rw [List.append_nil]
      exact h.next

end Loops

/-! ## Keys as text -/

theorem hexDigit_symbol : ∀ d < 16, hexDigit d ≠ LF ∧ hexDigit d ≠ CR ∧ hexDigit d ≠ COMMENT := by
  decide

theorem mem_intToStr {key : Key} {c : UInt8} (hc : c ∈ intToStr key) :
    c ≠ LF ∧ c ≠ CR ∧ c ≠ COMMENT := by
  obtain ⟨byte, -, hc⟩ := List.mem_flatMap.1 hc
  rw [printHex_two, List.mem_cons, List.mem_singleton] at hc
  rcases hc with rfl | rfl
  · exact hexDigit_symbol _ (Nat.mod_lt _ (by norm_num))
  · exact hexDigit_symbol _ (Nat.mod_lt _ (by norm_num))

theorem length_intToStr : ∀ key : Key, (intToStr key).length = key.length * 2
  | [] => rfl
  | byte :: key => by
    have h := length_intToStr key
    simp only [intToStr, List.flatMap_cons, List.length_append, length_printHex,
      List.length_cons] at h ⊢
    omega

theorem strToIntLoop_intToStr : ∀ (keyByteTmp : UInt8) (key : Key),
    strToIntLoop keyByteTmp (intToStr key) = key
  | _, [] => rfl
  | keyByteTmp, byte :: key => by
    have hbyte := hexCharToUint8_print byte.toNat_lt
    rw [UInt8.ofNat_toNat] at hbyte
    rw [intToStr, List.flatMap_cons, printHex_two, List.cons_append, List.cons_append,
      List.nil_append, strToIntLoop, hbyte, Option.getD_some]
    exact congrArg _ (strToIntLoop_intToStr byte key)

variable {junk : List UInt8 → UInt8} {keySize : ℕ}

theorem keySizeSymbols_eq (h : keySize * 2 + 1 < 2 ^ 31) :
    keySizeSymbols keySize = keySize * 2 + 1 := by
  have hword : sizeT ((keySize * 2 + 1 : ℕ) : ℤ) = keySize * 2 + 1 := sizeT_natCast (by omega)
  push_cast at hword
  exact hword

theorem symbolsOf_intToStr {key : Key} (hkey : key.length = keySize)
    (h : keySize * 2 + 1 < 2 ^ 31) : symbolsOf keySize (intToStr key) = some (intToStr key) := by
  have hfilter : (intToStr key).filter (· ≠ CR) = intToStr key :=
    List.filter_eq_self.2 fun c hc => by simpa using (mem_intToStr hc).2.1
  have htake : (intToStr key ++ [LF]).take (keySizeSymbols keySize - 1) = intToStr key := by
    rw [keySizeSymbols_eq h, Nat.add_sub_cancel]
    exact List.take_left' (by rw [length_intToStr, hkey])
  have hhead : (intToStr key ++ [LF]).head? ≠ some COMMENT := by
    cases hstr : intToStr key with
    | nil => decide
    | cons c str =>
      have hmem : c ∈ intToStr key := by
        rw [hstr]
        exact List.mem_cons_self
      simpa using (mem_intToStr hmem).2.2
  rw [symbolsOf, hfilter, htake, if_neg hhead, if_pos]
  rw [length_intToStr, hkey, keySizeSymbols_eq h, Nat.add_sub_cancel]

theorem keyOf_intToStr {key : Key} (hkey : key.length = keySize) (h : keySize * 2 + 1 < 2 ^ 31) :
    keyOf junk keySize (intToStr key) = some key := by
  rw [keyOf, symbolsOf_intToStr hkey h, Option.map_some, strToInt, strToIntLoop_intToStr]

theorem filterMap_keyOf (lines : List (List UInt8)) : lines.filterMap (keyOf junk keySize) =
    (lines.filterMap (symbolsOf keySize)).map (strToInt junk) := by
  rw [List.map_filterMap]
  rfl

/-! ## Looking for a key -/

/-- What a look for the next key finds among these lines, and where it stops. -/
inductive Found (junk : List UInt8 → UInt8) (keySize : ℕ) (f : File)
    (before : List (List UInt8)) : List (List UInt8) → Option Key → Prop
  | nothing {after : List (List UInt8)} (skipped : after.filterMap (keyOf junk keySize) = [])
      (place : At f (before ++ after) []) : Found junk keySize f before after none
  | key {skipped rest : List (List UInt8)} {line : List UInt8} {key : Key}
      (skipped_none : skipped.filterMap (keyOf junk keySize) = [])
      (line_key : keyOf junk keySize line = some key)
      (place : At f (before ++ skipped ++ [line]) rest) :
      Found junk keySize f before (skipped ++ line :: rest) (some key)

section Looking

variable {v : StreamVTable BufferedFileStream} {R : BufferedFileStream → File → Prop}
  (hv : ReadOk v R) {f : File} {before after : List (List UInt8)}
include hv

variable (junk) in
theorem nextKey_ensures (h : At f before after) :
    Ensures R (nextKey v junk keySize) f fun r f' => Found junk keySize f' before after r := by
  have hrounds : after.length < f.data.length + 1 := by
    have := length_le_text after
    rw [h.length]
    omega
  refine ((streamSize_ensures hv).bind_eq (getNextKeyLoop_ensures hv (f.data.length + 1)
    hrounds h)).bind ?_
  rintro r f' (⟨rfl, hnone, hat⟩ | ⟨skipped, line, symbols, rest, rfl, rfl, hskip, hline, hat⟩)
  · refine Ensures.pure (.nothing ?_ hat)
    rw [filterMap_keyOf, hnone, List.map_nil]
  · refine Ensures.pure (.key ?_ ?_ hat)
    · rw [filterMap_keyOf, hskip, List.map_nil]
    · rw [keyOf, hline, Option.map_some]

end Looking

theorem deleteLine_ensures {f : File} {before rest : List (List UInt8)} {line : List UInt8}
    (h : At f (before ++ [line]) rest) (hline : line.length + 1 = keySizeSymbols keySize)
    (hsmall : keySize * 2 + 1 < 2 ^ 31) :
    Ensures BufferedFileStream.Stands (do
      let _ ← BufferedFileStream.vtable.streamSeek (int32 (sizeT (-keySizeSymbols keySize)))
        .fromCurrent
      BufferedFileStream.vtable.streamDelete (keySizeSymbols keySize)) f fun r f' =>
      r = true ∧ At f' before rest := by
  have hsymbols := keySizeSymbols_eq hsmall
  have hoffset : int32 (sizeT (-keySizeSymbols keySize)) = -(keySizeSymbols keySize : ℤ) := by
    have hback := int32_back (i := 0) (n := keySizeSymbols keySize) (Nat.zero_le _) (by omega)
    simpa using hback
  have hpos : f.pos = (text before).length + keySizeSymbols keySize := by
    rw [h.pos, text_append, List.length_append, text_cons, text_nil, List.length_append, ← hline]
    rfl
  have hplace : (text before).length ≤ f.data.length := by
    have := f.pos_le
    omega
  rw [hoffset]
  refine (streamSeek_ensures_of_le BufferedFileStream.readOk _ .fromCurrent
    (p := (text before).length) ?_ hplace ?_ ?_).bind_eq ?_
  · rw [StreamOffset.origin, hpos]
    push_cast
    ring
  · omega
  · omega
  refine (BufferedFileStream.delete_ensures (keySizeSymbols keySize)).mono ?_
  rintro r f' ⟨rfl, hdata, hpos'⟩
  have hsplit : f.data = text before ++ ((line ++ [LF]) ++ text rest) := by
    rw [h.data]
    simp
  refine ⟨rfl, ?_, ?_, fun l hl => h.ends l ?_⟩
  · rw [hdata, Cursor.rest, Cursor.seek_pos_of_le hplace, Cursor.seek_data, hsplit,
      List.take_left, List.drop_left, List.drop_left']
    rw [List.length_append, ← hline]
    rfl
  · rw [hpos', Cursor.seek_pos_of_le hplace]
  · rw [List.append_assoc]
    exact List.mem_append.2 ((List.mem_append.1 hl).imp_right (List.mem_append_right [line]))

/-- The loop of a deletion: the first line that stands for the key is deleted, if there is one, and
it has the length it should have. -/
theorem deleteKeyLoop_ensures (hsmall : keySize * 2 + 1 < 2 ^ 31) (key : Key) :
    ∀ (rounds : ℕ) {f : File} {before after : List (List UInt8)}, after.length < rounds →
    At f before after →
    (∀ line ∈ after.find? fun line => keyOf junk keySize line = some key,
      line.length + 1 = keySizeSymbols keySize) →
    Ensures BufferedFileStream.Stands
      (deleteKeyLoop BufferedFileStream.vtable junk keySize key rounds) f fun r f' =>
      (r = false ∧ key ∉ after.filterMap (keyOf junk keySize) ∧ At f' (before ++ after) []) ∨
      ∃ skipped line rest, after = skipped ++ line :: rest ∧ r = true ∧
        key ∉ skipped.filterMap (keyOf junk keySize) ∧ keyOf junk keySize line = some key ∧
        At f' (before ++ skipped) rest
  | 0, _, _, _, hrounds, _, _ => absurd hrounds (Nat.not_lt_zero _)
  | rounds + 1, f, before, after, hrounds, h, hfirst => by
    refine (nextKey_ensures _ BufferedFileStream.readOk h).bind ?_
    rintro r f' hfound
    cases hfound with
    | nothing hskip hat =>
      refine Ensures.pure (.inl ⟨rfl, ?_, hat⟩)
      rw [hskip]
      exact List.not_mem_nil
    | @key skipped rest line found hskip hline hat =>
      have hnot : ∀ l ∈ skipped, ¬keyOf junk keySize l = some key := by
        intro l hl hkey
        rw [List.filterMap_eq_nil_iff] at hskip
        rw [hskip l hl] at hkey
        cases hkey
      have hfind : skipped.find? (fun line => keyOf junk keySize line = some key) = none :=
        List.find?_eq_none.2 fun l hl => by simpa using hnot l hl
      rw [List.find?_append, hfind, Option.none_or] at hfirst
      simp only
      by_cases hkey : found = key
      · subst hkey
        rw [if_pos rfl]
        rw [List.find?_cons_of_pos (by simpa using hline)] at hfirst
        refine (deleteLine_ensures hat (hfirst line rfl) hsmall).mono ?_
        rintro r f'' ⟨rfl, hat'⟩
        refine .inr ⟨skipped, line, rest, rfl, rfl, ?_, hline, hat'⟩
        rw [hskip]
        exact List.not_mem_nil
      · rw [if_neg hkey]
        rw [List.find?_cons_of_neg (by simpa [hline] using hkey)] at hfirst
        have hlength : rest.length < rounds := by
          simp only [List.length_append, List.length_cons] at hrounds
          omega
        refine (deleteKeyLoop_ensures hsmall key rounds hlength hat hfirst).mono ?_
        rintro r f'' (⟨rfl, hmem, hat'⟩ | ⟨skipped', line', rest', rfl, rfl, hmem, hline', hat'⟩)
        · refine .inl ⟨rfl, ?_, by simpa using hat'⟩
          rw [List.filterMap_append, hskip, List.filterMap_cons_some hline, List.nil_append,
            List.mem_cons, not_or]
          exact ⟨Ne.symm hkey, hmem⟩
        · refine .inr ⟨skipped ++ line :: skipped', line', rest', by simp, rfl, ?_, hline',
            by simpa using hat'⟩
          rw [List.filterMap_append, hskip, List.filterMap_cons_some hline, List.nil_append,
            List.mem_cons, not_or]
          exact ⟨Ne.symm hkey, hmem⟩

/-! ## The functions of a dictionary -/

theorem removeKey_ensures (hsmall : keySize * 2 + 1 < 2 ^ 31) (key : Key) {f : File}
    {before after : List (List UInt8)} (h : At f before after)
    (hfirst : ∀ line ∈ (before ++ after).find? fun line => keyOf junk keySize line = some key,
      line.length + 1 = keySizeSymbols keySize) :
    Ensures BufferedFileStream.Stands
      (removeKey BufferedFileStream.vtable junk keySize key) f fun r f' => ∃ lines,
      r = decide (key ∈ (before ++ after).filterMap (keyOf junk keySize)) ∧
      lines.filterMap (keyOf junk keySize) =
        ((before ++ after).filterMap (keyOf junk keySize)).erase key ∧ At f' [] lines := by
  have hrounds : (before ++ after).length < (f.seek 0).data.length + 1 := by
    have := length_le_text (before ++ after)
    rw [Cursor.seek_data, h.data, ← text_append]
    omega
  refine (streamRewind_ensures BufferedFileStream.readOk).bind_eq ?_
  refine (streamSize_ensures BufferedFileStream.readOk).bind_eq ?_
  refine (deleteKeyLoop_ensures hsmall key _ hrounds h.rewind hfirst).bind ?_
  rintro r f' hr
  have hrewind := streamRewind_ensures BufferedFileStream.readOk (f := f')
  rcases hr with ⟨rfl, hmem, hat⟩ | ⟨skipped, line, rest, hlines, rfl, hmem, hline, hat⟩
  · refine hrewind.bind_eq (Ensures.pure ⟨before ++ after, ?_, ?_, ?_⟩)
    · exact (decide_eq_false hmem).symm
    · rw [List.erase_of_not_mem hmem]
    · simpa using hat.rewind
  · refine hrewind.bind_eq (Ensures.pure ⟨skipped ++ rest, ?_, ?_, ?_⟩)
    · rw [hlines, List.filterMap_append, List.filterMap_cons_some hline]
      simp
    · rw [hlines, List.filterMap_append, List.filterMap_append, List.filterMap_cons_some hline,
        List.erase_append_right _ hmem, List.erase_cons_head]
    · simpa using hat.rewind

theorem addKeyStr_ensures (key : Key) {f : File} {before after : List (List UInt8)}
    (h : At f before after) (hfits : f.data.length + (intToStr key).length + 2 < 2 ^ 31) :
    Ensures BufferedFileStream.Stands
      (addKeyStr BufferedFileStream.vtable (intToStr key)) f fun r f' =>
      r = true ∧ At f' before (after ++ [intToStr key]) := by
  have hle := f.pos_le
  refine (streamTell_ensures BufferedFileStream.readOk).bind_eq ?_
  refine (streamSeek_ensures_of_le BufferedFileStream.readOk _ .fromEnd (p := f.data.length)
    (by simp [StreamOffset.origin]) le_rfl (by norm_num) (by norm_num)).bind_eq ?_
  have hend : (f.seek f.data.length).pos = f.data.length := Cursor.seek_pos_of_le le_rfl
  have hdata : ((f.seek f.data.length).write (intToStr key ++ [LF])).data =
      f.data ++ (intToStr key ++ [LF]) := Cursor.write_at_end hend _
  have hlength : ((f.seek f.data.length).write (intToStr key ++ [LF])).data.length =
      f.data.length + (intToStr key).length + 1 := by
    rw [hdata, List.length_append, List.length_append, List.length_singleton]
    omega
  rw [if_pos rfl]
  refine (BufferedFileStream.insertString_ensures (intToStr key ++ [LF]) hend ?_).bind_eq ?_
  · unfold FileFits
    omega
  have hoffset : int32 f.pos = f.pos := int32_of_range (by omega) (by omega)
  rw [hoffset]
  refine (streamSeek_ensures_of_le BufferedFileStream.readOk _ .fromStart (p := f.pos)
    (by simp [StreamOffset.origin]) (by omega) (by omega) (by omega)).bind_eq ?_
  refine Ensures.pure ⟨rfl, ?_, ?_, ?_⟩
  · rw [Cursor.seek_data, hdata, h.data]
    simp
  · rw [Cursor.seek_pos_of_le (by omega), h.pos]
  · rintro line hline
    rw [← List.append_assoc] at hline
    rcases List.mem_append.1 hline with hline | hline
    · exact h.ends line hline
    · rw [List.mem_singleton.1 hline]
      exact fun hmem => (mem_intToStr hmem).1 rfl

theorem terminated_ends (data : List UInt8) :
    terminated data = [] ∨ (terminated data).getLast? = some LF := by
  unfold terminated
  split_ifs with hdata
  · exact hdata
  · exact .inr (by rw [List.getLast?_append_cons]; rfl)

theorem length_terminated (data : List UInt8) : (terminated data).length ≤ data.length + 1 := by
  unfold terminated
  split_ifs
  · exact Nat.le_succ _
  · rw [List.length_append, List.length_singleton]

theorem addEndingNewLine_ensures {f : File} (hfits : f.data.length + 2 < 2 ^ 31) :
    Ensures BufferedFileStream.Stands (addEndingNewLine BufferedFileStream.vtable) f
      fun _ f' => f'.data = terminated f.data ∧ f'.pos = 0 := by
  unfold addEndingNewLine
  by_cases hempty : f.data = []
  · have htarget : seekTarget f.data.length (-1) = (false, 0) := rfl
    have hseek := streamSeek_ensures BufferedFileStream.readOk (f := f) (-1) (p := -1) .fromEnd
      (by rw [StreamOffset.origin, hempty]; rfl) (by norm_num) (by norm_num) (by norm_num)
    rw [htarget] at hseek
    refine hseek.bind_eq ?_
    rw [if_neg (by decide)]
    refine Ensures.pure ⟨?_, Cursor.seek_pos_of_le (Nat.zero_le _)⟩
    rw [Cursor.seek_data, terminated, if_pos (.inl hempty)]
  · have hpos := List.length_pos_iff.2 hempty
    refine (streamSeek_ensures_of_le BufferedFileStream.readOk (-1) .fromEnd
      (p := f.data.length - 1) ?_ (Nat.sub_le _ _) (by norm_num) (by norm_num)).bind_eq ?_
    · simp only [StreamOffset.origin]
      omega
    rw [if_pos rfl]
    refine (streamRead_ensures BufferedFileStream.readOk 1).bind_eq ?_
    obtain ⟨g, hg⟩ : ∃ g, g = (f.seek (f.data.length - 1)).advance 1 := ⟨_, rfl⟩
    obtain ⟨init, last, hdata⟩ : ∃ init last, f.data = init ++ [last] :=
      ⟨_, _, (List.dropLast_append_getLast hempty).symm⟩
    have hlength : f.data.length = init.length + 1 := by
      rw [hdata, List.length_append, List.length_singleton]
    have hplace : (f.seek (f.data.length - 1)).pos = init.length := by
      rw [Cursor.seek_pos_of_le (Nat.sub_le _ _)]
      omega
    have hpeek : (f.seek (f.data.length - 1)).peek 1 = [last] := by
      rw [Cursor.peek_eq, Cursor.rest, hplace, Cursor.seek_data, hdata, List.drop_left]
      rfl
    have hgdata : g.data = f.data := by
      rw [hg]
      rfl
    have hgpos : g.pos = g.data.length := by
      rw [hgdata, hg, Cursor.advance_pos, hplace, Cursor.seek_data]
      omega
    rw [hpeek, ← hg]
    by_cases hlast : last = LF
    · rw [if_neg (by simp [hlast])]
      refine (streamRewind_ensures BufferedFileStream.readOk).bind_eq
        (Ensures.pure ⟨?_, Cursor.seek_pos_of_le (Nat.zero_le _)⟩)
      have hends : f.data.getLast? = some LF := by
        rw [hdata, hlast, List.getLast?_append_cons]
        rfl
      rw [Cursor.seek_data, hgdata, terminated, if_pos (.inr hends)]
    · rw [if_pos (by simp [hlast])]
      have hwritten : (g.write [LF]).data = f.data ++ [LF] := by
        rw [Cursor.write_at_end hgpos, hgdata]
      have hrewind := BufferedFileStream.write_rewind_ensures (f := g) [LF] (by
        unfold FileFits
        rw [hwritten, List.length_append, List.length_singleton]
        omega)
      change Ensures BufferedFileStream.Stands (BufferedFileStream.vtable.streamWrite [LF] >>=
        fun _ => BufferedFileStream.vtable.streamRewind >>= fun _ => pure ()) g _
      rw [← bind_assoc]
      refine hrewind.bind_eq (Ensures.pure ⟨?_, Cursor.seek_pos_of_le (Nat.zero_le _)⟩)
      have hends : ¬(f.data = [] ∨ f.data.getLast? = some LF) := by
        rw [hdata, List.getLast?_append_cons]
        simp [hlast]
      rw [Cursor.seek_data, hwritten, terminated, if_neg hends]

/-! ## A dictionary and its list of keys -/

/-- The dictionary in front of these lines stands for the list. -/
structure HoldsAt (junk : List UInt8 → UInt8) (dict : KeysDict) (list : KeyList) (f : File)
    (before after : List (List UInt8)) : Prop where
  stands : dict.stream.Stands f
  place : At f before after
  keys : list.keys = (before ++ after).filterMap (keyOf junk dict.keySize)
  next : list.next = (before.filterMap (keyOf junk dict.keySize)).length
  total : dict.totalKeys = list.keys.length
  small : dict.keySize * 2 + 1 < 2 ^ 31

def Holds (junk : List UInt8 → UInt8) (dict : KeysDict) (list : KeyList) : Prop :=
  ∃ f before after, HoldsAt junk dict list f before after

namespace HoldsAt

variable {dict : KeysDict} {list : KeyList} {f : File} {before after : List (List UInt8)}

theorem file (h : HoldsAt junk dict list f before after) : dict.stream.file = f :=
  h.stands.1.file_eq

theorem length_keys (h : HoldsAt junk dict list f before after) :
    list.keys.length ≤ f.data.length := by
  rw [h.keys, h.place.data, ← text_append]
  exact (List.length_filterMap_le _ _).trans (length_le_text _)

theorem rewind (h : HoldsAt junk dict list f before after) :
    ∃ dict', dict.rewind = some (true, dict') ∧
      Holds junk dict' { list with next := 0 } := by
  obtain ⟨b, s, f', hrun, hs, rfl, rfl⟩ :=
    streamRewind_ensures BufferedFileStream.readOk dict.stream h.stands
  refine ⟨{ dict with stream := s }, ?_, _, _, _, hs, h.place.rewind, h.keys, rfl, h.total, h.small⟩
  rw [KeysDict.rewind, hrun]
  rfl

theorem getNextKey (h : HoldsAt junk dict list f before after) :
    ∃ dict', dict.getNextKey junk = some (list.keys[list.next]?, dict') ∧
      Holds junk dict' { list with next := min (list.next + 1) list.keys.length } := by
  obtain ⟨r, s, f', hrun, hs, hfound⟩ :=
    nextKey_ensures junk BufferedFileStream.readOk h.place dict.stream h.stands
  have hget : dict.getNextKey junk = some (r, { dict with stream := s }) := by
    rw [KeysDict.getNextKey, hrun]
    rfl
  rw [hget]
  have hkeys := h.keys
  have hnext := h.next
  have htotal := h.total
  rw [List.filterMap_append] at hkeys
  cases hfound with
  | nothing hskip hat =>
    rw [hskip, List.append_nil] at hkeys
    have hlength : list.keys.length = list.next := by rw [hnext, hkeys]
    refine ⟨{ dict with stream := s }, ?_, f', before ++ after, [], hs, hat, ?_, ?_, htotal,
      h.small⟩
    · rw [List.getElem?_eq_none hlength.le]
    · simp [hkeys, hskip]
    · show min (list.next + 1) list.keys.length =
        ((before ++ after).filterMap (keyOf junk dict.keySize)).length
      rw [List.filterMap_append, hskip, List.append_nil, ← hnext]
      omega
  | @key skipped rest line key hskip hline hat =>
    have hskip' : skipped.filterMap (keyOf junk dict.keySize) = [] := hskip
    rw [List.filterMap_append, hskip, List.filterMap_cons_some hline, List.nil_append] at hkeys
    have hlength := congrArg List.length hkeys
    rw [List.length_append, List.length_cons, ← hnext] at hlength
    refine ⟨{ dict with stream := s }, ?_, f', before ++ skipped ++ [line], rest, hs, hat, ?_, ?_,
      htotal, h.small⟩
    · rw [hkeys, List.getElem?_append_right hnext.ge, hnext, Nat.sub_self]
      rfl
    · simp only [List.filterMap_append, hskip', List.filterMap_cons_some hline, hkeys]
      simp
    · show min (list.next + 1) list.keys.length =
        ((before ++ skipped ++ [line]).filterMap (keyOf junk dict.keySize)).length
      rw [List.filterMap_append, List.filterMap_append, hskip, List.filterMap_cons_some hline,
        List.append_nil, List.length_append, List.length_cons, List.filterMap_nil,
        List.length_nil, ← hnext]
      omega

theorem addKey {key : Key} (h : HoldsAt junk dict list f before after)
    (hok : StepOk junk dict (.addKey key)) :
    ∃ dict', dict.addKey key = some (true, dict') ∧
      Holds junk dict' { list with keys := list.keys ++ [key] } := by
  obtain ⟨hkey, hroom⟩ := hok
  have hsymbols := keySizeSymbols_eq h.small
  rw [h.file, hsymbols] at hroom
  have hlength : (intToStr key).length = dict.keySize * 2 := by rw [length_intToStr, hkey]
  obtain ⟨r, s, f', hrun, hs, rfl, hat⟩ :=
    addKeyStr_ensures key h.place (by omega) dict.stream h.stands
  have hbound := h.length_keys
  have htotal : sizeT (dict.totalKeys + 1) = dict.totalKeys + 1 := by
    have hword : sizeT ((dict.totalKeys + 1 : ℕ) : ℤ) = dict.totalKeys + 1 :=
      sizeT_natCast (by have := h.total; omega)
    push_cast at hword
    exact hword
  refine ⟨⟨s, dict.keySize, dict.totalKeys + 1⟩, ?_, f', before, after ++ [intToStr key], hs, hat,
    ?_, h.next, ?_, h.small⟩
  · rw [KeysDict.addKey, if_pos hkey, hrun, Option.map_some, if_pos rfl, htotal]
  · simp only
    rw [← List.append_assoc, List.filterMap_append, ← h.keys,
      List.filterMap_cons_some (keyOf_intToStr hkey h.small), List.filterMap_nil]
  · simp only [List.length_append, List.length_singleton, h.total]

theorem deleteKey {key : Key} (h : HoldsAt junk dict list f before after)
    (hok : StepOk junk dict (.deleteKey key)) :
    ∃ dict', dict.deleteKey junk key = some (decide (key ∈ list.keys), dict') ∧
      Holds junk dict' ⟨list.keys.erase key, 0⟩ := by
  obtain ⟨hkey, hfirst⟩ := hok
  rw [h.file, h.place.lines] at hfirst
  obtain ⟨r, s, f', hrun, hs, lines, rfl, hlines, hat⟩ :=
    removeKey_ensures h.small key h.place hfirst dict.stream h.stands
  rw [← h.keys] at hrun hlines
  have hbound := h.length_keys
  have hfits := h.stands.2.2.lt
  have htotal := h.total
  refine ⟨⟨s, dict.keySize, if decide (key ∈ list.keys) = true then sizeT (dict.totalKeys - 1)
    else dict.totalKeys⟩, ?_, f', [], lines, hs, hat, hlines.symm, rfl, ?_, h.small⟩
  · rw [KeysDict.deleteKey, if_pos hkey, hrun]
    rfl
  · by_cases hmem : key ∈ list.keys
    · have hpos := List.length_pos_of_mem hmem
      simp only [hmem, decide_true, if_true]
      rw [List.length_erase_of_mem hmem, htotal, sizeT_of_range (by omega) (by omega)]
      omega
    · simp only [hmem, decide_false, Bool.false_eq_true, if_false]
      rw [List.erase_of_not_mem hmem, htotal]

end HoldsAt

theorem step_holds {dict : KeysDict} {list : KeyList} {call : Call} (h : Holds junk dict list)
    (hok : StepOk junk dict call) : ∃ dict', dict.step junk call = some ((list.step call).1, dict') ∧
      Holds junk dict' (list.step call).2 := by
  obtain ⟨f, before, after, h⟩ := h
  cases call with
  | addKey key =>
    obtain ⟨dict', hrun, h'⟩ := h.addKey hok
    exact ⟨dict', by rw [step, hrun]; rfl, h'⟩
  | deleteKey key =>
    obtain ⟨dict', hrun, h'⟩ := h.deleteKey hok
    exact ⟨dict', by rw [step, hrun]; rfl, h'⟩
  | getNextKey =>
    obtain ⟨dict', hrun, h'⟩ := h.getNextKey
    exact ⟨dict', by rw [step, hrun]; rfl, h'⟩
  | rewind =>
    obtain ⟨dict', hrun, h'⟩ := h.rewind
    exact ⟨dict', by rw [step, hrun]; rfl, h'⟩

theorem keysLeft_eq : ∀ (rounds : ℕ) {dict : KeysDict} {list : KeyList}, Holds junk dict list →
    list.keys.length - list.next < rounds →
    keysLeft junk rounds dict = some (list.keys.drop list.next)
  | 0, _, _, _, hrounds => absurd hrounds (Nat.not_lt_zero _)
  | rounds + 1, dict, list, h, hrounds => by
    obtain ⟨f, before, after, h⟩ := h
    obtain ⟨dict', hrun, h'⟩ := h.getNextKey
    rw [keysLeft, hrun, Option.bind_eq_bind, Option.bind_some]
    by_cases hnext : list.next < list.keys.length
    · have hmin : min (list.next + 1) list.keys.length = list.next + 1 := by omega
      rw [hmin] at h'
      rw [List.getElem?_eq_getElem hnext, List.drop_eq_getElem_cons hnext]
      dsimp only
      rw [keysLeft_eq rounds h' (by dsimp only; omega)]
      rfl
    · rw [List.getElem?_eq_none (by omega), List.drop_eq_nil_of_le (by omega)]
      rfl

theorem pass_eq {dict : KeysDict} {list : KeyList} (h : Holds junk dict list) :
    dict.pass junk = some list.keys := by
  obtain ⟨f, before, after, h⟩ := h
  obtain ⟨dict', hrun, h'⟩ := h.rewind
  have hsize : dict.stream.size = f.data.length :=
    BufferedFileStream.size_eq h.stands.1 h.stands.2.2.lt
  have hbound := h.length_keys
  rw [pass, hrun, Option.bind_eq_bind, Option.bind_some, hsize,
    keysLeft_eq (f.data.length + 1) h' (by dsimp only; omega), List.drop_zero]

/-- The keys of a file that is opened. -/
def keysOf (junk : List UInt8 → UInt8) (keySize : ℕ) (data : List UInt8) : List Key :=
  (linesOf (terminated data)).filterMap (keyOf junk keySize)

theorem alloc_holds (junk : List UInt8 → UInt8) (file : File) (hsize : 0 < keySize)
    (hsmall : keySize * 2 + 1 < 2 ^ 31) (hfile : file.data.length + 2 < 2 ^ 31) :
    ∃ dict f, alloc file keySize = some dict ∧ dict.keySize = keySize ∧
      HoldsAt junk dict ⟨keysOf junk keySize file.data, 0⟩ f [] (linesOf (terminated file.data)) := by
  obtain ⟨lines, htext, hends⟩ := exists_lines (terminated_ends file.data)
  have hlinesOf : linesOf (terminated file.data) = lines := by rw [htext, linesOf_text hends]
  have hload : Ensures BufferedFileStream.Stands (loadKeys BufferedFileStream.vtable keySize) file
      fun n f' => At f' [] lines ∧ n = (lines.filterMap (symbolsOf keySize)).length := by
    refine (addEndingNewLine_ensures hfile).bind ?_
    rintro - f' ⟨hdata, hpos⟩
    have hat : At f' [] lines := ⟨hdata.trans htext, hpos, hends⟩
    have hlength : lines.length ≤ f'.data.length := by
      rw [hat.data]
      exact length_le_text lines
    have hbound := length_terminated file.data
    rw [← hdata] at hbound
    refine (streamSize_ensures BufferedFileStream.readOk).bind_eq ?_
    refine (countKeys_ensures BufferedFileStream.readOk (f'.data.length + 1) 0 (by omega)
      (by omega) hat).bind ?_
    rintro n f'' ⟨rfl, hdata'⟩
    refine (streamRewind_ensures BufferedFileStream.readOk).bind_eq
      (Ensures.pure ⟨⟨?_, ?_, hends⟩, Nat.zero_add _⟩)
    · rw [Cursor.seek_data, hdata']
      exact hat.data
    · exact Cursor.seek_pos_of_le (Nat.zero_le _)
  obtain ⟨n, s, f', hrun, hs, hat, rfl⟩ := hload (.ofFile file)
    (BufferedFileStream.stands_ofFile (by unfold FileFits; omega))
  rw [keysOf, hlinesOf]
  refine ⟨⟨s, keySize, (lines.filterMap (symbolsOf keySize)).length⟩, f', ?_, rfl, hs, hat, rfl, rfl,
    ?_, hsmall⟩
  · rw [alloc, if_neg (by omega), hrun]
    rfl
  · rw [filterMap_keyOf, List.length_map]

/-- As long as each step is allowed (`StepOk`), a dictionary gives what a list of keys gives, a pass
over its file yields this list, and it counts as many. -/
theorem keys_dict_consistent (junk : List UInt8 → UInt8) (file : File) {keySize : ℕ}
    (hsize : 0 < keySize) (hsmall : keySize * 2 + 1 < 2 ^ 31)
    (hfile : file.data.length + 2 < 2 ^ 31) :
    ∃ dict, alloc file keySize = some dict ∧ ∀ calls,
      UntilAlong (StepOk junk) (step junk) dict calls → ∃ dict',
        runUntil (step junk) dict calls =
          some ((run KeyList.step ⟨keysOf junk keySize file.data, 0⟩ calls).1, dict') ∧
        dict'.pass junk =
          some (run KeyList.step ⟨keysOf junk keySize file.data, 0⟩ calls).2.keys ∧
        dict'.getTotalKeys =
          (run KeyList.step ⟨keysOf junk keySize file.data, 0⟩ calls).2.keys.length := by
  obtain ⟨dict, f, halloc, -, hholds⟩ := alloc_holds junk file hsize hsmall hfile
  refine ⟨dict, halloc, fun calls hcalls => ?_⟩
  have hsim : ∀ dict list call, Holds junk dict list → StepOk junk dict call →
      ∃ dict', dict.step junk call = some ((list.step call).1, dict') ∧
        Holds junk dict' (list.step call).2 := fun _ _ _ => step_holds
  obtain ⟨dict', hrun, hholds'⟩ :=
    runUntil_refines (Holds junk) hsim calls ⟨f, [], _, hholds⟩ hcalls
  have hpass := pass_eq hholds'
  obtain ⟨f', before, after, hat⟩ := hholds'
  exact ⟨dict', hrun, hpass, hat.total⟩

/-- The first of two keys is deleted, then the next key is asked for. -/
theorem keys_dict_consistent_delete :
    ∃ dict, alloc ⟨[65, 48, 10, 66, 49], 0, Nat.zero_le _⟩ 1 = some dict ∧ ∃ dict',
      runUntil (step fun _ => 0) dict [.deleteKey [0xA0], .getNextKey] =
        some ([.bool true, .key (some [0xB1])], dict') ∧
      dict'.pass (fun _ => 0) = some [[0xB1]] ∧ dict'.getTotalKeys = 1 := by
  obtain ⟨dict, halloc, hruns⟩ := keys_dict_consistent (fun _ => 0)
    ⟨[65, 48, 10, 66, 49], 0, Nat.zero_le _⟩ (by decide : 0 < 1) (by decide) (by decide)
  obtain ⟨dict₀, f, halloc₀, hkeySize, hholds⟩ := alloc_holds (fun _ => 0)
    ⟨[65, 48, 10, 66, 49], 0, Nat.zero_le _⟩ (by decide : 0 < 1) (by decide) (by decide)
  obtain rfl : dict = dict₀ := Option.some.inj (halloc.symm.trans halloc₀)
  refine ⟨dict, halloc, hruns [.deleteKey [0xA0], .getNextKey] ⟨⟨hkeySize.symm, ?_⟩, fun _ _ =>
    ⟨trivial, fun _ _ => trivial⟩⟩⟩
  rw [hholds.file, hholds.place.lines, hkeySize]
  decide

/-- The lines of two keys end with a return and an end of line. The first key is deleted but for its
first symbol, which is left in front of the other key. -/
theorem return_spoils_next_key :
    ∃ dict, alloc ⟨[65, 48, 13, 10, 66, 49, 13, 10], 0, Nat.zero_le _⟩ 1 = some dict ∧
      dict.pass (fun _ => 0) = some [[0xA0], [0xB1]] ∧ ∃ dict',
      dict.step (fun _ => 0) (.deleteKey [0xA0]) = some (.bool true, dict') ∧
      dict'.pass (fun _ => 0) = some [[0xAB]] := by
  obtain ⟨dict, f, halloc, hkeySize, hholds⟩ := alloc_holds (fun _ => 0)
    ⟨[65, 48, 13, 10, 66, 49, 13, 10], 0, Nat.zero_le _⟩ (by decide : 0 < 1) (by decide)
    (by decide)
  refine ⟨dict, halloc, pass_eq ⟨f, [], _, hholds⟩, ?_⟩
  have hplace : At f [] [[65, 48, 13], [66, 49, 13]] := hholds.place
  have hdata : f.data = [65, 48, 13, 10, 66, 49, 13, 10] := hplace.data
  have hremove : Ensures BufferedFileStream.Stands
      (removeKey BufferedFileStream.vtable (fun _ => 0) 1 [0xA0]) f fun r f' =>
      r = true ∧ At f' [] [[65, 66, 49, 13]] := by
    refine (streamRewind_ensures BufferedFileStream.readOk).bind_eq ?_
    refine (streamSize_ensures BufferedFileStream.readOk).bind_eq ?_
    refine Ensures.bind (Q := fun r f' => r = true ∧ f'.data = [65, 66, 49, 13, 10]) ?_ ?_
    · rw [deleteKeyLoop]
      refine (nextKey_ensures _ BufferedFileStream.readOk hplace.rewind).bind ?_
      rintro r f' hfound
      obtain ⟨after, hafter⟩ : ∃ after : List (List UInt8),
        after = [] ++ [[65, 48, 13], [66, 49, 13]] := ⟨_, rfl⟩
      rw [← hafter] at hfound
      cases hfound with
      | nothing hskip _ =>
        rw [hafter] at hskip
        exact absurd hskip (by decide)
      | @key skipped rest line key hskip hline hat =>
        obtain ⟨rfl, rfl, rfl⟩ : skipped = [] ∧ line = [65, 48, 13] ∧ rest = [[66, 49, 13]] := by
          cases skipped with
          | nil => simpa using hafter
          | cons first skipped =>
            obtain ⟨rfl, -⟩ := List.cons.inj hafter
            rw [List.filterMap_cons_some (b := [0xA0]) (by decide)] at hskip
            cases hskip
        obtain rfl : key = [0xA0] := Option.some.inj (hline.symm.trans (by decide))
        dsimp only
        rw [if_pos rfl]
        have hpos : f'.pos = 4 := hat.pos
        have hdata' : f'.data = [65, 48, 13, 10, 66, 49, 13, 10] := hat.data
        refine (streamSeek_ensures_of_le BufferedFileStream.readOk _ .fromCurrent (p := 1)
          (by rw [StreamOffset.origin, hpos]; rfl) (by rw [hdata']; decide) (by decide)
          (by decide)).bind_eq ?_
        refine (BufferedFileStream.delete_ensures 3).mono ?_
        rintro r f'' ⟨rfl, hdata'', -⟩
        refine ⟨rfl, ?_⟩
        rw [hdata'', Cursor.rest, Cursor.seek_pos_of_le (by rw [hdata']; decide), Cursor.seek_data,
          hdata']
        rfl
    · rintro r f' ⟨rfl, hdata'⟩
      refine (streamRewind_ensures BufferedFileStream.readOk).bind_eq (Ensures.pure ⟨rfl, ?_⟩)
      exact ⟨hdata', Cursor.seek_pos_of_le (Nat.zero_le _), by decide⟩
  obtain ⟨r, s, f', hrun, hs, rfl, hat⟩ := hremove dict.stream hholds.stands
  have hholds' : HoldsAt (fun _ => 0) ⟨s, 1, 1⟩ ⟨[[0xAB]], 0⟩ f' [] [[65, 66, 49, 13]] :=
    ⟨hs, hat, rfl, rfl, rfl, (by decide : 1 * 2 + 1 < 2 ^ 31)⟩
  refine ⟨⟨s, 1, 1⟩, ?_, pass_eq ⟨f', [], _, hholds'⟩⟩
  have htotal : dict.totalKeys = 2 := hholds.total
  rw [step, KeysDict.deleteKey, hkeySize, if_pos (List.length_singleton), hrun, htotal]
  rfl

end KeysDict

end KiisuFirmware
