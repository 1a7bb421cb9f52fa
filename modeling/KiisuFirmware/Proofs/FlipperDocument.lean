import KiisuFirmware.FlipperDocument
import KiisuFirmware.Proofs.FlipperRead
import KiisuFirmware.Proofs.Strint

/-!
# Documents are read as they were written

What is printed of an element is a word (`FlipperWord`), and the words of a line are read one after
the other. `DocumentAt` is a file that holds a document and has been read up to some entry of it; a
read takes it to behind the entry of its key.
-/

namespace KiisuFirmware

open FlipperText

variable {σ α : Type} {v : StreamVTable σ} {R : σ → File → Prop}

/-! ## Words -/

/-- What is printed of an element. -/
structure FlipperWord (word : List UInt8) : Prop where
  nonempty : word ≠ []
  graphic : ∀ c ∈ word, 32 < c
  delimiter : flipperFormatDelimiter ∉ word

theorem isSpace_of_graphic {c : UInt8} (h : 32 < c) : FlipperFormatStream.isSpace c = false := by
  have hne : ∀ d : UInt8, ¬32 < d → c ≠ d := by
    rintro d hd rfl
    exact hd h
  simp only [FlipperFormatStream.isSpace, flipperFormatEolr, Bool.or_eq_false_iff,
    beq_eq_false_iff_ne]
  exact ⟨⟨hne 32 (by decide), hne 9 (by decide)⟩, hne 13 (by decide)⟩

theorem FlipperWord.eoln {word : List UInt8} (h : FlipperWord word) : flipperFormatEoln ∉ word :=
  fun hmem => absurd (h.graphic _ hmem) (by decide)

theorem FlipperWord.nul {word : List UInt8} (h : FlipperWord word) : 0 ∉ word :=
  fun hmem => absurd (h.graphic _ hmem) (by decide)

theorem mem_printDecimal (n : ℕ) : ∀ c ∈ printDecimal n, ∃ d < 10, c = digitChar d := by
  by_cases hn : n = 0
  · subst hn
    intro c hc
    exact ⟨0, by norm_num, List.mem_singleton.1 hc⟩
  · obtain ⟨d, digits, -, hdigits, -, hprint⟩ := printDecimal_pos hn
    intro c hc
    rw [hprint] at hc
    obtain ⟨e, he, rfl⟩ := List.mem_map.1 hc
    exact ⟨e, hdigits e he, rfl⟩

theorem mem_printHex : ∀ (width n : ℕ), ∀ c ∈ printHex width n, ∃ d < 16, c = hexDigit d
  | 0, _, c, hc => absurd hc List.not_mem_nil
  | width + 1, n, c, hc => by
    rw [printHex, List.mem_append, List.mem_singleton] at hc
    rcases hc with hc | rfl
    · exact mem_printHex width (n / 16) c hc
    · exact ⟨n % 16, Nat.mod_lt _ (by norm_num), rfl⟩

theorem digitChar_ne_delimiter : ∀ d < 10, digitChar d ≠ flipperFormatDelimiter := by decide

theorem hexDigit_ne_delimiter : ∀ d < 16, hexDigit d ≠ flipperFormatDelimiter := by decide

theorem printDecimal_word (n : ℕ) : FlipperWord (printDecimal n) where
  nonempty := (printDecimal_graphic n).1
  graphic := (printDecimal_graphic n).2
  delimiter hmem := by
    obtain ⟨d, hd, heq⟩ := mem_printDecimal n _ hmem
    exact digitChar_ne_delimiter d hd heq.symm

theorem printInt_word (n : ℤ) : FlipperWord (printInt n) where
  nonempty := (printInt_graphic n).1
  graphic := (printInt_graphic n).2
  delimiter hmem := by
    unfold printInt at hmem
    split_ifs at hmem
    · rcases List.mem_cons.1 hmem with h | h
      · exact absurd h (by decide)
      · exact (printDecimal_word _).delimiter h
    · exact (printDecimal_word _).delimiter hmem

theorem printHex_word (width n : ℕ) : FlipperWord (printHex (width + 1) n) where
  nonempty := printHex_ne_nil width n
  graphic := printHex_graphic (width + 1) n
  delimiter hmem := by
    obtain ⟨d, hd, heq⟩ := mem_printHex (width + 1) n _ hmem
    exact hexDigit_ne_delimiter d hd heq.symm

/-- What is printed of an element is a word, and is scanned back. -/
structure FlipperStreamValue.Ok (type : FlipperStreamValue α) : Prop where
  word : ∀ data, FlipperWord (type.print data)
  scan : ∀ data, type.scan (type.print data) = some data

namespace FlipperStreamValue

theorem hex_ok : hex.Ok where
  word data := printHex_word 1 data.toNat
  scan data := by
    have hread := hexCharToUint8_print data.toNat_lt
    rw [UInt8.ofNat_toNat] at hread
    exact hread

theorem int32_ok : int32.Ok where
  word data := printInt_word data.toInt
  scan data := congrArg Except.toOption (strintToInt32_print data)

theorem uint32_ok : uint32.Ok where
  word data := printDecimal_word data.toNat
  scan data := congrArg Except.toOption (strintToUint32_print data)

theorem hexUint64_ok : hexUint64.Ok where
  word data := by
    have hhi := printHex_word 7 (data >>> 32).toUInt32.toNat
    have hlow := printHex_word 7 data.toUInt32.toNat
    refine ⟨List.append_ne_nil_of_left_ne_nil hhi.nonempty _, fun c hc => ?_, fun hmem => ?_⟩
    · exact (List.mem_append.1 hc).elim (hhi.graphic c) (hlow.graphic c)
    · exact (List.mem_append.1 hmem).elim hhi.delimiter hlow.delimiter
  scan data := by
    simp only [hexUint64]
    rw [if_pos (by rw [List.length_append, length_printHex, length_printHex])]
    exact hexCharsToUint64_print data

theorem bool_ok : bool.Ok where
  word data := by
    have hletters : ∀ c ∈ bool.print data, c ∈ flipperTrue ++ flipperFalse := by
      cases data
      · exact fun c hc => List.mem_append_right _ hc
      · exact fun c hc => List.mem_append_left _ hc
    have hgraphic : ∀ c ∈ flipperTrue ++ flipperFalse, 32 < c ∧ c ≠ flipperFormatDelimiter := by
      simp only [flipperTrue, flipperFalse, List.cons_append, List.nil_append,
        List.forall_mem_cons]
      refine ⟨?_, ?_, ?_, ?_, ?_, ?_, ?_, ?_, ?_, nofun⟩ <;> exact ⟨by decide, by decide⟩
    refine ⟨by cases data <;> exact List.cons_ne_nil _ _, fun c hc => ?_, fun hmem => ?_⟩
    · exact (hgraphic c (hletters c hc)).1
    · exact (hgraphic _ (hletters _ hmem)).2 rfl
  scan data := by cases data <;> rfl

end FlipperStreamValue

/-! ## Lines of words -/

section Spaced

variable {words : List (List UInt8)}

theorem mem_spaced {c : UInt8} : ∀ {words : List (List UInt8)}, c ∈ spaced words →
    c = 32 ∨ ∃ word ∈ words, c ∈ word
  | [], h => absurd h List.not_mem_nil
  | [word], h => .inr ⟨word, List.mem_cons_self, h⟩
  | word :: next :: words, h => by
    rcases List.mem_append.1 h with h | h
    · exact .inr ⟨word, List.mem_cons_self, h⟩
    · rcases List.mem_cons.1 h with h | h
      · exact .inl h
      · rcases mem_spaced h with h | ⟨word', hword, h⟩
        · exact .inl h
        · exact .inr ⟨word', List.mem_cons_of_mem _ hword, h⟩

theorem spaced_eoln (h : ∀ word ∈ words, FlipperWord word) : flipperFormatEoln ∉ spaced words := by
  intro hmem
  rcases mem_spaced hmem with heq | ⟨word, hword, hmem⟩
  · cases heq
  · exact (h word hword).eoln hmem

theorem spaced_nul (h : ∀ word ∈ words, FlipperWord word) : 0 ∉ spaced words := by
  intro hmem
  rcases mem_spaced hmem with heq | ⟨word, hword, hmem⟩
  · cases heq
  · exact (h word hword).nul hmem

theorem spaced_delimiter (h : ∀ word ∈ words, FlipperWord word) :
    flipperFormatDelimiter ∉ spaced words := by
  intro hmem
  rcases mem_spaced hmem with heq | ⟨word, hword, hmem⟩
  · cases heq
  · exact (h word hword).delimiter hmem

theorem spaced_firstWord {word : List UInt8} (h : ∀ w ∈ word :: words, FlipperWord w) :
    ∃ trailing, spaced (word :: words) = [] ++ (word ++ (trailing ++ spaced words)) ∧
      FirstWord [] word trailing (spaced words) := by
  have hword := h word List.mem_cons_self
  have hletters : ∀ c ∈ word, FlipperFormatStream.isSpace c = false :=
    fun c hc => isSpace_of_graphic (hword.graphic c hc)
  cases words with
  | nil =>
    refine ⟨[], by rw [spaced, spaced, List.nil_append, List.nil_append, List.append_nil], ?_⟩
    exact ⟨nofun, hletters, hword.nonempty, nofun, fun _ => rfl, nofun⟩
  | cons next words =>
    refine ⟨[32], rfl, nofun, hletters, hword.nonempty, ?_, nofun, fun c hc => ?_⟩
    · intro c hc
      rw [List.mem_singleton.1 hc]
      rfl
    · have hnext := h next (List.mem_cons_of_mem _ List.mem_cons_self)
      obtain ⟨d, next', rfl⟩ := List.exists_cons_of_ne_nil hnext.nonempty
      have hhead : (spaced ((d :: next') :: words)).head? = some d := by
        cases words <;> rfl
      rw [hhead] at hc
      rw [← Option.some.inj hc]
      exact isSpace_of_graphic (hnext.graphic d List.mem_cons_self)

theorem wordCount_spaced : ∀ {words : List (List UInt8)}, (∀ word ∈ words, FlipperWord word) →
    wordCount (spaced words) = words.length
  | [], _ => rfl
  | word :: words, h => by
    obtain ⟨trailing, hsplit, hfirst⟩ := spaced_firstWord h
    rw [hsplit, hfirst.wordCount,
      wordCount_spaced fun w hw => h w (List.mem_cons_of_mem _ hw), List.length_cons]

theorem spaced_eq_nil (h : ∀ word ∈ words, FlipperWord word) : spaced words = [] ↔ words = [] := by
  refine ⟨fun hnil => ?_, fun hnil => by rw [hnil]; rfl⟩
  have hcount := wordCount_spaced h
  rw [hnil] at hcount
  exact List.length_eq_zero_iff.1 hcount.symm

end Spaced

theorem parseValues_spaced {type : FlipperStreamValue α} (htype : type.Ok) : ∀ (n : ℕ)
    (data : List α), parseValues type n (spaced (data.map type.print)) =
      if n ≤ data.length then some (data.take n, spaced ((data.drop n).map type.print)) else none
  | 0, data => rfl
  | n + 1, [] => rfl
  | n + 1, first :: data => by
    have hwords : ∀ data : List α, ∀ word ∈ data.map type.print, FlipperWord word := by
      intro data word hword
      obtain ⟨x, -, rfl⟩ := List.mem_map.1 hword
      exact htype.word x
    obtain ⟨trailing, hsplit, hfirst⟩ := @spaced_firstWord (data.map type.print)
      (type.print first) (hwords (first :: data))
    rw [List.map_cons, hsplit, parseValues, hfirst.nextWord]
    simp only [htype.scan, spaced_eq_nil (hwords data), List.map_eq_nil_iff]
    by_cases hshort : data = [] ∧ n ≠ 0
    · rw [if_pos hshort, if_neg]
      rw [hshort.1, List.length_singleton]
      have := hshort.2
      omega
    · rw [if_neg hshort, parseValues_spaced htype n data, List.length_cons]
      by_cases hn : n ≤ data.length
      · rw [if_pos hn, if_pos (Nat.succ_le_succ hn)]
        rfl
      · rw [if_neg hn, if_neg (by omega)]
        rfl

/-! ## Values -/

namespace FlipperValue

theorem prints_word {value : FlipperValue} (h : value.type ≠ .str) :
    ∀ word ∈ value.prints, FlipperWord word := by
  cases value with
  | str data => exact absurd rfl h
  | hex data => exact List.forall_mem_map.2 fun x _ => FlipperStreamValue.hex_ok.word x
  | int32 data => exact List.forall_mem_map.2 fun x _ => FlipperStreamValue.int32_ok.word x
  | uint32 data => exact List.forall_mem_map.2 fun x _ => FlipperStreamValue.uint32_ok.word x
  | hexUint64 data => exact List.forall_mem_map.2 fun x _ => FlipperStreamValue.hexUint64_ok.word x
  | bool data => exact List.forall_mem_map.2 fun x _ => FlipperStreamValue.bool_ok.word x

theorem Ok.eoln {value : FlipperValue} (h : value.Ok) : flipperFormatEoln ∉ value.text := by
  cases value with
  | str data => exact h.2.1
  | _ => exact spaced_eoln (prints_word nofun)

theorem Ok.nul {value : FlipperValue} (h : value.Ok) : 0 ∉ value.text := by
  cases value with
  | str data => exact h.2.2.2
  | _ => exact spaced_nul (prints_word nofun)

theorem text_delimiter {value : FlipperValue} (h : value.type ≠ .str) :
    flipperFormatDelimiter ∉ value.text := spaced_delimiter (prints_word h)

theorem wordCount_text {value : FlipperValue} (h : value.type ≠ .str) :
    wordCount value.text = value.count := wordCount_spaced (prints_word h)

theorem parse_text {value : FlipperValue} (h : value.Ok) (n : ℕ) :
    parse n value.text value.type =
      if value.type = .str ∨ n ≤ value.count then some (value.take n) else none := by
  have harray : ∀ {α : Type} {type : FlipperStreamValue α} (_ : type.Ok) (data : List α)
      (wrap : List α → FlipperValue),
      (parseValues type n (spaced (data.map type.print))).map (fun r => wrap r.1) =
        if n ≤ (data.map type.print).length then some (wrap (data.take n)) else none := by
    intro α type htype data wrap
    rw [parseValues_spaced htype, List.length_map]
    split_ifs <;> rfl
  cases value with
  | str data =>
    have hline : data.filter (· ≠ flipperFormatEolr) = data := by
      rw [List.filter_eq_self]
      intro c hc
      simpa using fun heq : c = flipperFormatEolr => h.2.2.1 (heq ▸ hc)
    change (if data.filter (· ≠ flipperFormatEolr) ≠ [] then
      some (FlipperValue.str (data.filter (· ≠ flipperFormatEolr))) else none) = _
    rw [hline, if_pos h.1, if_pos (.inl rfl)]
    rfl
  | hex data =>
    exact (harray FlipperStreamValue.hex_ok data .hex).trans (by simp [type, take, count, prints])
  | int32 data =>
    exact (harray FlipperStreamValue.int32_ok data .int32).trans (by simp [type, take, count, prints])
  | uint32 data =>
    exact (harray FlipperStreamValue.uint32_ok data .uint32).trans (by simp [type, take, count, prints])
  | hexUint64 data =>
    exact (harray FlipperStreamValue.hexUint64_ok data .hexUint64).trans (by simp [type, take, count, prints])
  | bool data =>
    exact (harray FlipperStreamValue.bool_ok data .bool).trans (by simp [type, take, count, prints])

end FlipperValue

theorem nextWord_suffix {line word line' : List UInt8} (h : nextWord line = some (word, line')) :
    line' <:+ line := by
  unfold nextWord at h
  split at h
  · cases h
  · next c rest hspaces =>
    obtain ⟨-, rfl⟩ := Prod.mk.inj (Option.some.inj h)
    refine ((List.dropWhile_suffix _).trans (List.dropWhile_suffix _)).trans ?_
    rw [← hspaces]
    exact List.dropWhile_suffix _

theorem parseValues_suffix {type : FlipperStreamValue α} : ∀ {n : ℕ} {line line' : List UInt8}
    {data : List α}, parseValues type n line = some (data, line') → line' <:+ line
  | 0, line, line', data, h => by
    rw [(Prod.mk.inj (Option.some.inj h)).2]
  | n + 1, line, line', data, h => by
    rw [parseValues] at h
    cases hword : nextWord line with
    | none => simp [hword] at h
    | some r =>
      obtain ⟨word, line₁⟩ := r
      simp only [hword] at h
      cases hscan : type.scan word with
      | none => simp [hscan] at h
      | some first =>
        simp only [hscan] at h
        split_ifs at h
        obtain ⟨⟨more, line₂⟩, hparse, heq⟩ := Option.map_eq_some_iff.1 h
        rw [← (Prod.mk.inj heq).2]
        exact (parseValues_suffix hparse).trans (nextWord_suffix hword)

/-! ## Lines -/

theorem FlipperKey.keyOf {key : List UInt8} (h : FlipperKey key) (rest : List UInt8) :
    keyOf (key ++ flipperFormatDelimiter :: rest) = some key ∧
      delimiterOf (key ++ flipperFormatDelimiter :: rest) = key.length := by
  have htake : (key ++ flipperFormatDelimiter :: rest).takeWhile (· ≠ flipperFormatDelimiter) =
      key := by
    rw [List.takeWhile_append_of_pos, List.takeWhile_cons_of_neg (by simp), List.append_nil]
    intro c hc
    simpa using fun heq : c = flipperFormatDelimiter => h.delimiter (heq ▸ hc)
  have htext : keyText (key ++ flipperFormatDelimiter :: rest) = key := by
    rw [keyText, htake, List.filter_eq_self]
    intro c hc
    simpa using fun heq : c = flipperFormatEolr => h.eolr (heq ▸ hc)
  constructor
  · rw [FlipperText.keyOf, htext, if_pos]
    exact ⟨by simp, h.nonempty, h.comment⟩
  · rw [delimiterOf, htake]

theorem keyOf_of_not_mem {line : List UInt8} (h : flipperFormatDelimiter ∉ line) :
    keyOf line = none := if_neg fun hkey => h hkey.1

theorem FlipperEntry.Ok.eoln {entry : FlipperEntry} (h : entry.Ok) :
    flipperFormatEoln ∉ entry.line := by
  cases entry with
  | value key data =>
    obtain ⟨hkey, hdata⟩ := h
    simp only [FlipperEntry.line, List.mem_append, List.mem_cons, not_or]
    exact ⟨hkey.eoln, by decide, by decide, hdata.eoln⟩
  | comment text =>
    simp only [FlipperEntry.line, List.mem_cons, not_or]
    exact ⟨by decide, by decide, h.1⟩
  | empty => exact List.not_mem_nil

theorem FlipperEntry.Ok.nul {entry : FlipperEntry} (h : entry.Ok) : 0 ∉ entry.line := by
  cases entry with
  | value key data =>
    obtain ⟨hkey, hdata⟩ := h
    simp only [FlipperEntry.line, List.mem_append, List.mem_cons, not_or]
    exact ⟨hkey.nul, by decide, by decide, hdata.nul⟩
  | comment text =>
    simp only [FlipperEntry.line, List.mem_cons, not_or]
    exact ⟨by decide, by decide, h.2⟩
  | empty => exact List.not_mem_nil

namespace FlipperDocument

theorem valueStart_append {frags : List (List UInt8)} (h : ∀ frag ∈ frags, keyOf frag = none)
    (strictMode : Bool) (key : List UInt8) (lines : List (List UInt8)) (last : List UInt8) :
    valueStart strictMode key (frags ++ lines) last =
      (valueStart strictMode key lines last).map ((FlipperText.bytes frags []).length + ·) := by
  induction frags with
  | nil => simp [FlipperText.bytes]
  | cons frag frags ih =>
    have hfrag := h frag List.mem_cons_self
    rw [List.cons_append, valueStart, hfrag, if_neg (by simp), if_neg (by simp),
      ih fun frag hmem => h frag (List.mem_cons_of_mem _ hmem), Option.map_map]
    congr 1
    funext n
    simp only [Function.comp_apply, FlipperText.bytes, List.length_append, List.length_cons]
    omega

/-- The value of a key that is found is behind its delimiter. -/
def StartsAt (strictMode : Bool) (key : List UInt8) (entries : List FlipperEntry) :
    Option (FlipperValue × List FlipperEntry) → Prop
  | none => valueStart strictMode key (entries.map FlipperEntry.line) [] = none
  | some (value, after) => ∃ n,
      valueStart strictMode key (entries.map FlipperEntry.line) [] = some n ∧
      (bytes entries).drop n = value.text ++ flipperFormatEoln :: bytes after

theorem StartsAt.cons {strictMode : Bool} {key : List UInt8} {entries : List FlipperEntry}
    {entry : FlipperEntry} (hkey : keyOf entry.line ≠ some key)
    (hstrict : ¬(strictMode = true ∧ keyOf entry.line ≠ none))
    {found : Option (FlipperValue × List FlipperEntry)}
    (h : StartsAt strictMode key entries found) :
    StartsAt strictMode key (entry :: entries) found := by
  have hstart : valueStart strictMode key ((entry :: entries).map FlipperEntry.line) [] =
      (valueStart strictMode key (entries.map FlipperEntry.line) []).map
        (entry.line.length + 1 + ·) := by
    rw [List.map_cons, valueStart, if_neg hkey, if_neg hstrict]
  cases found with
  | none => exact hstart.trans (congrArg _ h)
  | some r =>
    obtain ⟨n, hn, hdrop⟩ := h
    refine ⟨entry.line.length + 1 + n, by rw [hstart, hn]; rfl, ?_⟩
    rw [← hdrop, bytes, List.map_cons, FlipperText.bytes,
      show entry.line.length + 1 + n = entry.line.length + (n + 1) by omega, ← List.drop_drop,
      List.drop_left]
    rfl

theorem startsAt_find {strictMode : Bool} {key : List UInt8} : ∀ {entries : List FlipperEntry},
    (∀ entry ∈ entries, entry.Ok) → StartsAt strictMode key entries (find strictMode key entries)
  | [], _ => by simp [find, StartsAt, valueStart, keyOf]
  | entry :: entries, h => by
    have hrest := @startsAt_find strictMode key entries fun e he =>
      h e (List.mem_cons_of_mem _ he)
    have hentry := h entry List.mem_cons_self
    cases entry with
    | value entryKey data =>
      obtain ⟨hkeyOf, hdelimiter⟩ := hentry.1.keyOf (32 :: data.text)
      rw [find]
      by_cases hkey : entryKey = key
      · subst hkey
        rw [if_pos rfl]
        refine ⟨entryKey.length + 2, ?_, ?_⟩
        · rw [List.map_cons, valueStart, FlipperEntry.line, hkeyOf, if_pos rfl, hdelimiter]
        · rw [bytes, List.map_cons, FlipperText.bytes, FlipperEntry.line, List.append_assoc,
            ← List.drop_drop, List.drop_left]
          rfl
      · have hother : keyOf (FlipperEntry.value entryKey data).line ≠ some key := by
          rw [FlipperEntry.line, hkeyOf]
          simpa using hkey
        rw [if_neg hkey]
        by_cases hstrict : strictMode = true
        · rw [if_pos hstrict]
          change valueStart strictMode key _ [] = none
          rw [List.map_cons, valueStart, if_neg hother, if_pos]
          exact ⟨hstrict, by rw [FlipperEntry.line, hkeyOf]; simp⟩
        · rw [if_neg hstrict]
          exact hrest.cons hother fun h => hstrict h.1
    | comment text =>
      have hnone : keyOf (FlipperEntry.comment text).line = none := keyOf_comment
      exact hrest.cons (by rw [hnone]; simp) fun h => h.2 hnone
    | empty =>
      have hnone : keyOf FlipperEntry.empty.line = none := by simp [FlipperEntry.line, keyOf]
      exact hrest.cons (by rw [hnone]; simp) fun h => h.2 hnone

theorem find_mem {strictMode : Bool} {key : List UInt8} {value : FlipperValue}
    {after : List FlipperEntry} : ∀ {entries : List FlipperEntry},
    find strictMode key entries = some (value, after) →
    ∃ before, entries = before ++ .value key value :: after
  | [], h => by cases h
  | .value entryKey data :: entries, h => by
    rw [find] at h
    split_ifs at h with hkey hstrict
    · subst hkey
      obtain ⟨rfl, rfl⟩ := Prod.mk.inj (Option.some.inj h)
      exact ⟨[], rfl⟩
    · obtain ⟨before, rfl⟩ := find_mem h
      exact ⟨.value entryKey data :: before, rfl⟩
  | .comment text :: entries, h => by
    obtain ⟨before, rfl⟩ := @find_mem _ _ _ _ entries h
    exact ⟨.comment text :: before, rfl⟩
  | .empty :: entries, h => by
    obtain ⟨before, rfl⟩ := @find_mem _ _ _ _ entries h
    exact ⟨.empty :: before, rfl⟩

/-- A file that holds a document and has been read up to these entries of it. -/
structure DocumentAt (doc left : List FlipperEntry) (f : File) : Prop where
  data : f.data = bytes doc
  suffix : left <:+ doc
  /-- What is left of a line that was read from gives no key. -/
  rest : ∃ frags : List (List UInt8), (∀ frag ∈ frags, flipperFormatEoln ∉ frag ∧
    keyOf frag = none) ∧ f.rest = FlipperText.bytes (frags ++ left.map FlipperEntry.line) []

theorem documentAt_start {doc : List FlipperEntry} {f : File} (h : f.data = bytes doc) :
    DocumentAt doc doc (f.seek 0) :=
  ⟨h, List.suffix_rfl, [], by simp, by rw [Cursor.rest, Cursor.seek_pos, Nat.zero_min]; exact h⟩

section Reading

variable {doc left : List FlipperEntry} {f : File}

theorem lineFree (h : ∀ entry ∈ left, entry.Ok) {frags : List (List UInt8)}
    (hfrags : ∀ frag ∈ frags, flipperFormatEoln ∉ frag ∧ keyOf frag = none) :
    LineFree (frags ++ left.map FlipperEntry.line) [] := by
  refine ⟨fun line hline => ?_, List.not_mem_nil⟩
  rcases List.mem_append.1 hline with hline | hline
  · exact (hfrags line hline).1
  · obtain ⟨entry, hentry, rfl⟩ := List.mem_map.1 hline
    exact (h entry hentry).eoln

theorem DocumentAt.behind (h : DocumentAt doc left f) {key : List UInt8} {value : FlipperValue}
    {before after : List FlipperEntry} (hleft : left = before ++ .value key value :: after)
    {f' : File} (hdata : f'.data = f.data) {line : List UInt8} (hline : keyOf line = none)
    (hat : FlipperFormatStream.LineAt f' line (flipperFormatEoln :: bytes after)) :
    DocumentAt doc after f' := by
  refine ⟨hdata.trans h.data, ?_, [line], ?_, ?_⟩
  · refine List.IsSuffix.trans ?_ h.suffix
    rw [hleft]
    exact (List.suffix_cons _ _).trans (List.suffix_append _ _)
  · intro frag hfrag
    rw [List.mem_singleton.1 hfrag]
    exact ⟨hat.free, hline⟩
  · rw [hat.rest]
    rfl

theorem DocumentAt.skip {entry : FlipperEntry} (h : DocumentAt doc (entry :: left) f)
    (hdoc : ∀ entry ∈ doc, entry.Ok) (hnone : keyOf entry.line = none) :
    DocumentAt doc left f := by
  obtain ⟨frags, hfrags, hrest⟩ := h.rest
  have hentry := hdoc entry (h.suffix.subset List.mem_cons_self)
  refine ⟨h.data, (List.suffix_cons _ _).trans h.suffix, frags ++ [entry.line], ?_, ?_⟩
  · intro frag hfrag
    rcases List.mem_append.1 hfrag with hfrag | hfrag
    · exact hfrags frag hfrag
    · rw [List.mem_singleton.1 hfrag]
      exact ⟨hentry.eoln, hnone⟩
  · rw [hrest, List.map_cons, List.append_assoc]
    rfl

variable (hv : StreamOk v R) (hdoc : ∀ entry ∈ doc, entry.Ok)
include hv hdoc

theorem seekToKey_ensures {strictMode : Bool} {key : List UInt8} (h : DocumentAt doc left f) :
    Ensures R (FlipperFormatStream.seekToKey v key strictMode) f fun found f' =>
      f'.data = f.data ∧ found = (find strictMode key left).isSome ∧
      ∀ value after, find strictMode key left = some (value, after) →
        FlipperFormatStream.LineAt f' value.text (flipperFormatEoln :: bytes after) := by
  obtain ⟨frags, hfrags, hrest⟩ := h.rest
  have hok : ∀ entry ∈ left, entry.Ok := fun entry hentry => hdoc entry (h.suffix.subset hentry)
  refine (FlipperFormatStream.seekToKey_ensures hv key strictMode (lineFree hok hfrags)
    hrest).mono ?_
  rintro found f' ⟨hfound, hdata, hplace⟩
  have hstarts := @startsAt_find strictMode key left hok
  rw [valueStart_append fun frag hfrag => (hfrags frag hfrag).2] at hfound hplace
  cases hfind : find strictMode key left with
  | none =>
    rw [hfind] at hstarts
    have hnone : valueStart strictMode key (left.map FlipperEntry.line) [] = none := hstarts
    rw [hnone] at hfound
    exact ⟨hdata, hfound, by simp⟩
  | some r =>
    obtain ⟨value, after⟩ := r
    rw [hfind] at hstarts
    obtain ⟨n, hn, hdrop⟩ := hstarts
    rw [hn] at hfound hplace
    refine ⟨hdata, hfound, ?_⟩
    rintro _ _ ⟨⟩
    obtain ⟨before, hleft⟩ := find_mem hfind
    have hentry := hok (.value key value) (by rw [hleft]; simp)
    refine ⟨?_, hentry.2.eoln, ?_⟩
    · rw [hplace _ rfl, Cursor.rest_advance, hrest, bytes_append, ← List.drop_drop, List.drop_left]
      exact hdrop
    · rintro c ⟨⟩
      rfl

theorem readValueLine_ensures {strictMode : Bool} {key : List UInt8} (type : FlipperType) (n : ℕ)
    (h : DocumentAt doc left f) :
    Ensures R (FlipperFormatStream.readValueLine v key type n strictMode) f fun r f' =>
      f'.data = f.data ∧ (find strictMode key left = none → r = none) ∧
      ∀ value after, find strictMode key left = some (value, after) →
        r = parse n value.text type ∧
        (r ≠ none → type = .str ∨ value.type ≠ .str → DocumentAt doc after f') := by
  refine (seekToKey_ensures hv hdoc h).bind ?_
  rintro found f₁ ⟨hdata, rfl, hplace⟩
  cases hfind : find strictMode key left with
  | none => exact Ensures.pure ⟨hdata, fun _ => rfl, by simp⟩
  | some r =>
    obtain ⟨value, after⟩ := r
    obtain ⟨before, hleft⟩ := find_mem hfind
    have hline := hplace value after hfind
    rw [Option.isSome_some, if_pos rfl]
    have harray : ∀ {α : Type} {elements : FlipperStreamValue α} {wrap : List α → FlipperValue},
        (parse n value.text type = (parseValues elements n value.text).map fun r => wrap r.1) →
        type ≠ .str →
        Ensures R (do return (← FlipperFormatStream.readValues v elements n).map wrap) f₁
          fun r f' => f'.data = f.data ∧ (some (value, after) = none → r = none) ∧
            ∀ value' after', some (value, after) = some (value', after') →
              r = parse n value'.text type ∧
              (r ≠ none → type = .str ∨ value'.type ≠ .str → DocumentAt doc after' f') := by
      intro α elements wrap hparse htype
      refine (FlipperFormatStream.readValues_ensures hv elements n hline).bind ?_
      rintro read f' ⟨hdata', rfl, hrest⟩
      refine Ensures.pure ⟨hdata'.trans hdata, by simp, ?_⟩
      rintro _ _ ⟨⟩
      refine ⟨by rw [hparse, Option.map_map]; rfl, fun hsome htypes => ?_⟩
      cases hvalues : parseValues elements n value.text with
      | none => simp [hvalues] at hsome
      | some r =>
        obtain ⟨data, line⟩ := r
        refine h.behind hleft (hdata'.trans hdata) ?_ (hrest data line hvalues)
        exact keyOf_of_not_mem fun hmem => FlipperValue.text_delimiter
          (htypes.resolve_left htype) ((parseValues_suffix hvalues).subset hmem)
    cases type with
    | str =>
      refine (FlipperFormatStream.readLine_ensures hv hline).bind ?_
      rintro r f' ⟨hdata', hr, hsome, hrest⟩
      refine Ensures.pure ⟨hdata'.trans hdata, by simp, ?_⟩
      rintro _ _ ⟨⟩
      refine ⟨?_, fun _ _ => h.behind hleft (hdata'.trans hdata) rfl ⟨hrest, List.not_mem_nil, ?_⟩⟩
      · rw [hsome, hr, parse]
        simp [List.length_eq_zero_iff]
      · rintro c ⟨⟩
        rfl
    | hex => exact harray rfl (by decide)
    | int32 => exact harray rfl (by decide)
    | uint32 => exact harray rfl (by decide)
    | hexUint64 => exact harray rfl (by decide)
    | bool => exact harray rfl (by decide)

omit hdoc in
theorem seekBack_ensures {f' : File} (hdata : f'.data = f.data) :
    Ensures R (v.streamSeek (int32 f.pos) .fromStart) f' fun b f'' => b = true ∧ f'' = f := by
  intro s hs
  have hfits := (hv.fits hs).lt
  have hpos := f.pos_le
  rw [hdata] at hfits
  have hword : int32 f.pos = f.pos := int32_of_range (by omega) (by omega)
  have hseek := @streamSeek_ensures_of_le _ _ _ hv.readOk f' (int32 f.pos) .fromStart f.pos
    (by rw [hword]; simp [StreamOffset.origin]) (by rw [hdata]; exact hpos) (by omega) (by omega)
  refine (hseek.mono ?_) s hs
  rintro b f'' ⟨rfl, rfl⟩
  refine ⟨rfl, ?_⟩
  ext1
  · exact hdata
  · rw [Cursor.seek_pos_of_le (by rw [hdata]; exact hpos)]

/-- What a count of the value that is found gives. -/
def counted : Option (FlipperValue × List FlipperEntry) → Bool × Option ℕ
  | none => (false, none)
  | some (value, _) =>
    (decide (0 < wordCount value.text), some (wordCount value.text % 2 ^ 32))

theorem getValueCount_ensures {strictMode : Bool} {key : List UInt8} (h : DocumentAt doc left f) :
    Ensures R (FlipperFormatStream.getValueCount v key strictMode) f fun r f' =>
      r = counted (find strictMode key left) ∧ f' = f := by
  have hcount : Ensures R (FlipperFormatStream.countAtKey v key strictMode) f fun r f' =>
      f'.data = f.data ∧ r = counted (find strictMode key left) := by
    refine (seekToKey_ensures hv hdoc h).bind ?_
    rintro found f₁ ⟨hdata, rfl, hplace⟩
    cases hfind : find strictMode key left with
    | none => exact Ensures.pure ⟨hdata, rfl⟩
    | some r =>
      obtain ⟨value, after⟩ := r
      have hline := hplace value after hfind
      refine (streamSize_ensures hv.readOk).bind_eq ?_
      have hwords : wordCount value.text < f₁.data.length + 1 := by
        have hle := wordsFrom_le false value.text
        have hlength := congrArg List.length hline.rest
        rw [Cursor.length_rest, List.length_append] at hlength
        unfold wordCount
        omega
      refine (FlipperFormatStream.countValues_ensures hv _ 0 hline hwords (by norm_num)).bind ?_
      rintro r f₂ ⟨hdata', rfl⟩
      refine Ensures.pure ⟨hdata'.trans hdata, ?_⟩
      rw [Nat.zero_add]
      rfl
  refine (streamTell_ensures hv.readOk).bind_eq ?_
  refine hcount.bind ?_
  rintro r f₁ ⟨hdata, rfl⟩
  refine (seekBack_ensures hv hdata).bind_eq (Ensures.pure ⟨?_, rfl⟩)
  rw [Bool.and_true]

theorem keyExist_ensures {strictMode : Bool} {key : List UInt8} (hdata : f.data = bytes doc) :
    Ensures R ((⟨v, strictMode⟩ : FlipperFormat σ).keyExist key) f fun b f' =>
      b = (find false key doc).isSome ∧ f' = f := by
  refine (streamTell_ensures hv.readOk).bind_eq ?_
  refine (streamRewind_ensures hv.readOk).bind ?_
  rintro - f₁ ⟨-, rfl⟩
  refine (seekToKey_ensures hv hdoc (documentAt_start hdata)).bind ?_
  rintro b f₁ ⟨hdata', rfl, -⟩
  refine (seekBack_ensures hv (show f₁.data = f.data from hdata')).bind ?_
  rintro - f₂ ⟨-, rfl⟩
  exact Ensures.pure ⟨rfl, rfl⟩

end Reading

/-! ## Writing -/

section Writing

variable {doc : List FlipperEntry} {f : File} {strictMode : Bool}

theorem write_text (data : List UInt8) (next : StreamWriteCB) :
    (FlipperFormatStream.write data next).text = data ++ next.text := by
  simp [FlipperFormatStream.write, StreamWriteCB.text]

theorem write_success (data : List UInt8) (next : StreamWriteCB) :
    (FlipperFormatStream.write data next).success = next.success := by
  simp [FlipperFormatStream.write, StreamWriteCB.success]

theorem writeValues_text : ∀ (words : List (List UInt8)) (next : StreamWriteCB),
    (FlipperFormatStream.writeValues words next).text = spaced words ++ next.text ∧
      (FlipperFormatStream.writeValues words next).success = next.success
  | [], next => ⟨rfl, rfl⟩
  | [word], next => ⟨write_text word next, write_success word next⟩
  | word :: word' :: words, next => by
    obtain ⟨htext, hsuccess⟩ := writeValues_text (word' :: words) next
    constructor
    · rw [FlipperFormatStream.writeValues, write_text, htext]
      · simp [spaced]
      · exact List.cons_ne_nil _ _
    · rw [FlipperFormatStream.writeValues, write_success, hsuccess]
      exact List.cons_ne_nil _ _

theorem writeEntry_ensures (hv : StreamOk v R) {entry : FlipperEntry} (hentry : entry.Ok)
    (hfits : FileFits (f.write (entry.line ++ [flipperFormatEoln]))) :
    Ensures R ((⟨v, strictMode⟩ : FlipperFormat σ).writeEntry entry) f fun b f' =>
      b = true ∧ f' = f.write (entry.line ++ [flipperFormatEoln]) := by
  have hcb : ∀ cb : StreamWriteCB, cb.text = entry.line ++ [flipperFormatEoln] →
      cb.success = true → Ensures R (v.runWriteCB cb) f fun b f' =>
        b = true ∧ f' = f.write (entry.line ++ [flipperFormatEoln]) := by
    intro cb htext hsuccess
    have hnul : 0 ∉ cb.text := by
      rw [htext, List.mem_append, List.mem_singleton, not_or]
      exact ⟨hentry.nul, by decide⟩
    have hrun := runWriteCB_ensures hv cb hnul (by rw [htext]; exact hfits)
    rwa [htext, hsuccess] at hrun
  cases entry with
  | value key data =>
    obtain ⟨htext, hsuccess⟩ := writeValues_text data.prints
      (FlipperFormatStream.writeEol (.done true))
    refine hcb (FlipperFormatStream.writeValueLine key data) ?_ ?_
    · rw [FlipperFormatStream.writeValueLine, FlipperFormatStream.writeKey, write_text, write_text,
        write_text, htext, FlipperFormatStream.writeEol, write_text]
      simp [FlipperEntry.line, FlipperValue.text, StreamWriteCB.text]
    · rw [FlipperFormatStream.writeValueLine, FlipperFormatStream.writeKey, write_success,
        write_success, write_success, hsuccess, FlipperFormatStream.writeEol, write_success]
      rfl
  | comment text =>
    refine hcb (FlipperFormatStream.writeCommentCstr text) ?_ ?_
    · rw [FlipperFormatStream.writeCommentCstr, write_text, write_text,
        FlipperFormatStream.writeEol, write_text]
      rfl
    · rw [FlipperFormatStream.writeCommentCstr, write_success, write_success,
        FlipperFormatStream.writeEol, write_success]
      rfl
  | empty =>
    exact hcb (FlipperFormatStream.writeEol (.done true)) rfl rfl

theorem bytes_cons (entry : FlipperEntry) (entries : List FlipperEntry) :
    bytes (entry :: entries) = entry.line ++ [flipperFormatEoln] ++ bytes entries := by
  rw [List.append_assoc]
  rfl

theorem fileFits_of_append {as bs : List UInt8} (h : FileFits (f.write (as ++ bs))) :
    FileFits (f.write as) := by
  unfold FileFits at h ⊢
  rw [Cursor.write_data, length_overwrite f.pos_le, List.length_append] at h
  rw [Cursor.write_data, length_overwrite f.pos_le]
  omega

theorem writeEntries_ensures (hv : StreamOk v R) : ∀ {doc : List FlipperEntry} {f : File},
    (∀ entry ∈ doc, entry.Ok) → FileFits (f.write (bytes doc)) →
    Ensures R ((⟨v, strictMode⟩ : FlipperFormat σ).writeEntries doc) f fun b f' =>
      b = true ∧ f' = f.write (bytes doc)
  | [], f, _, _ => Ensures.pure ⟨rfl, (Cursor.write_nil (f := f)).symm⟩
  | entry :: doc, f, hdoc, hfits => by
    rw [bytes_cons] at hfits ⊢
    refine (writeEntry_ensures hv (hdoc entry List.mem_cons_self)
      (fileFits_of_append hfits)).bind_eq ?_
    have hsplit := @Cursor.write_write _ f (entry.line ++ [flipperFormatEoln]) (bytes doc)
    rw [← hsplit] at hfits ⊢
    rw [if_pos rfl]
    exact writeEntries_ensures hv (fun e he => hdoc e (List.mem_cons_of_mem _ he)) hfits

end Writing

/-! ## There and back -/

section RoundTrip

variable {doc left : List FlipperEntry} {f : File} {strictMode : Bool}

theorem find_cons (strictMode : Bool) (key : List UInt8) (data : FlipperValue)
    (after : List FlipperEntry) :
    find strictMode key (.value key data :: after) = some (data, after) := if_pos rfl

theorem take_count (data : FlipperValue) : data.take data.count = data := by
  cases data <;> simp [FlipperValue.take, FlipperValue.count, FlipperValue.prints]

variable (hv : StreamOk v R) (hdoc : ∀ entry ∈ doc, entry.Ok)
include hv hdoc

theorem read_ensures {key : List UInt8} {data : FlipperValue} {after : List FlipperEntry}
    (h : DocumentAt doc (.value key data :: after) f) :
    Ensures R ((⟨v, strictMode⟩ : FlipperFormat σ).read key data.type data.count) f fun r f' =>
      r = some data ∧ DocumentAt doc after f' := by
  have hentry := hdoc (.value key data) (h.suffix.subset List.mem_cons_self)
  refine (readValueLine_ensures hv hdoc data.type data.count h).mono ?_
  rintro r f' ⟨-, -, hfound⟩
  obtain ⟨rfl, hat⟩ := hfound data after (find_cons strictMode key data after)
  rw [FlipperValue.parse_text hentry.2, if_pos (.inr le_rfl), take_count] at hat ⊢
  refine ⟨rfl, hat nofun ?_⟩
  rw [or_iff_not_imp_left]
  exact id

theorem readBack_ensures {key : List UInt8} {data : FlipperValue} {after : List FlipperEntry}
    (counts : List UInt8 → Bool) (h : DocumentAt doc (.value key data :: after) f) :
    Ensures R ((⟨v, strictMode⟩ : FlipperFormat σ).readBack (counts key) key data) f fun r f' =>
      some r = FlipperFormat.expected counts (.value key data) ∧ DocumentAt doc after f' := by
  unfold FlipperFormat.readBack
  by_cases hcounts : counts key = true ∧ data.type ≠ .str
  · rw [if_pos hcounts, FlipperFormat.expected, if_pos hcounts]
    have hentry := hdoc (.value key data) (h.suffix.subset List.mem_cons_self)
    have hcount := @getValueCount_ensures _ _ _ _ _ _ hv hdoc strictMode key h
    have hok : 0 < data.count ∧ data.count < 2 ^ 16 := by
      cases data with
      | str text => exact absurd rfl hcounts.2
      | _ => exact hentry.2
    rw [find_cons, counted, FlipperValue.wordCount_text hcounts.2, decide_eq_true hok.1,
      Nat.mod_eq_of_lt (by omega)] at hcount
    refine (streamTell_ensures hv.readOk).bind_eq ?_
    refine hcount.bind_eq ?_
    refine (streamTell_ensures hv.readOk).bind_eq ?_
    refine (read_ensures hv hdoc h).bind ?_
    rintro value f' ⟨rfl, hat⟩
    exact Ensures.pure ⟨by rw [decide_eq_true rfl], hat⟩
  · rw [if_neg hcounts, FlipperFormat.expected, if_neg hcounts]
    refine (read_ensures hv hdoc h).bind ?_
    rintro value f' ⟨rfl, hat⟩
    exact Ensures.pure ⟨rfl, hat⟩

theorem readEntries_ensures (counts : List UInt8 → Bool) : ∀ {left : List FlipperEntry} {f : File},
    DocumentAt doc left f →
    Ensures R ((⟨v, strictMode⟩ : FlipperFormat σ).readEntries counts left) f fun read _ =>
      read = left.filterMap (FlipperFormat.expected counts)
  | [], f, _ => Ensures.pure rfl
  | .value key data :: after, f, h => by
    refine (readBack_ensures hv hdoc counts h).bind ?_
    rintro first f₁ ⟨hfirst, hat⟩
    refine (readEntries_ensures counts hat).bind ?_
    rintro read f₂ rfl
    exact Ensures.pure (by rw [List.filterMap_cons, ← hfirst])
  | .comment text :: after, f, h => by
    have hrest := readEntries_ensures counts (h.skip hdoc keyOf_comment)
    exact hrest
  | .empty :: after, f, h => by
    have hrest := readEntries_ensures counts (h.skip hdoc (by simp [FlipperEntry.line, keyOf]))
    exact hrest

omit hdoc in
theorem writeAndRead_ensures (counts : List UInt8 → Bool) (hdoc : ∀ entry ∈ doc, entry.Ok)
    (hfits : (bytes doc).length + 1 < 2 ^ 31) :
    Ensures R ((⟨v, strictMode⟩ : FlipperFormat σ).writeAndRead counts doc) .empty fun r _ =>
      r = (true, true, doc.filterMap (FlipperFormat.expected counts)) := by
  have hdata : (Cursor.empty.write (bytes doc)).data = bytes doc := by simp [overwrite]
  refine (writeEntries_ensures hv hdoc (by unfold FileFits; rw [hdata]; exact hfits)).bind_eq ?_
  refine (streamRewind_ensures hv.readOk).bind_eq ?_
  refine (readEntries_ensures hv hdoc counts (documentAt_start hdata)).bind ?_
  rintro read f rfl
  exact Ensures.pure rfl

end RoundTrip

end FlipperDocument

/-- What is written to an empty stream is read back, from a string and from a file. -/
theorem FlipperFormat.writeAndRead_eq (doc : List FlipperEntry) (hdoc : ∀ entry ∈ doc, entry.Ok)
    (hfits : (FlipperDocument.bytes doc).length + 1 < 2 ^ 31) (strictMode : Bool)
    (counts : List UInt8 → Bool) :
    (∃ stream, writeAndRead ⟨StringStream.vtable, strictMode⟩ counts doc StringStream.alloc =
      some ((true, true, doc.filterMap (expected counts)), stream)) ∧
    ∃ stream, writeAndRead ⟨FileStream.vtable, strictMode⟩ counts doc Cursor.empty =
      some ((true, true, doc.filterMap (expected counts)), stream) := by
  constructor
  · obtain ⟨r, stream, -, hrun, -, rfl⟩ := FlipperDocument.writeAndRead_ensures
      StringStream.streamOk counts hdoc hfits StringStream.alloc ⟨⟨rfl, rfl⟩, List.not_mem_nil⟩
    exact ⟨stream, hrun⟩
  · obtain ⟨r, stream, -, hrun, -, rfl⟩ := FlipperDocument.writeAndRead_ensures
      FileStream.streamOk counts hdoc hfits Cursor.empty ⟨rfl, by unfold FileFits; simp⟩
    exact ⟨stream, hrun⟩

/-- A comment, a string, two arrays and an empty line. -/
def sampleDocument : List FlipperEntry :=
  [.comment [65], .value [75, 101, 121] (.str [32, 118, 58]), .empty,
    .value [68, 32, 48] (.hex [1, 255]), .value [79] (.bool [true, false, true])]

theorem sampleDocument_ok : ∀ entry ∈ sampleDocument, entry.Ok := by
  have hkey : ∀ key : List UInt8, key ≠ [] ∧ flipperFormatDelimiter ∉ key ∧
      flipperFormatEoln ∉ key ∧ flipperFormatEolr ∉ key ∧
      key.head? ≠ some flipperFormatComment ∧ 0 ∉ key → FlipperKey key :=
    fun key ⟨h₁, h₂, h₃, h₄, h₅, h₆⟩ => ⟨h₁, h₂, h₃, h₄, h₅, h₆⟩
  simp only [sampleDocument, List.forall_mem_cons]
  refine ⟨⟨by decide, by decide⟩, ⟨hkey _ (by decide), by decide, by decide, by decide, by decide⟩,
    trivial, ⟨hkey _ (by decide), ?_, ?_⟩, ⟨hkey _ (by decide), ?_, ?_⟩, nofun⟩ <;>
  decide

theorem FlipperFormat.writeAndRead_eq_sample :
    (∃ stream, writeAndRead ⟨StringStream.vtable, true⟩ (fun _ => true) sampleDocument
      StringStream.alloc =
        some ((true, true, sampleDocument.filterMap (expected fun _ => true)), stream)) ∧
    ∃ stream, writeAndRead ⟨FileStream.vtable, true⟩ (fun _ => true) sampleDocument Cursor.empty =
      some ((true, true, sampleDocument.filterMap (expected fun _ => true)), stream) :=
  writeAndRead_eq sampleDocument sampleDocument_ok (by decide) true fun _ => true

end KiisuFirmware
