import KiisuFirmware.SimpleArray

/-!
# Arrays as values

What an array holds is a list of values, each the bytes of an element and what its own arrays hold.
The operations do to the memory of an array what their names say of its values, and leave what is
apart from it alone, for plain elements and for elements with arrays, one inside of the other to any
depth.
-/

namespace KiisuFirmware

namespace SimpleArray

open Heap

/-- The value of an element: its bytes that are no pointers, and those of its arrays. -/
inductive Value
  | mk (bytes : List UInt8) (members : List (List Value))

/-- A configuration with what it means that an element has a value, and the value of one of zeros.
-/
structure ArrayType where
  config : SimpleArrayConfig
  Elem : Element → Value → Assertion UInt32 Cell
  zero : Value

/-- The memory of an array and of all that belongs to it. -/
def ArrayType.Holds (type : ArrayType) (a : UInt32) : List Value → Assertion UInt32 Cell
  | [] => cell a (.header ⟨type.config.address, 0, 0⟩)
  | value :: values => fun h => ∃ data elements count,
      (data ≠ 0 ∧ count.toNat = values.length + 1) ∧
        sep (cell a (.header ⟨type.config.address, data, count⟩))
          (sep (cell data (.data elements)) (All type.Elem elements (value :: values))) h

/-- What the callbacks of a configuration have to do. -/
structure ArrayType.Lawful (type : ArrayType) : Prop where
  initElements : ∀ n, Triple emp
    (initElements type.config (List.replicate n type.config.zero))
    fun elements => All type.Elem elements (List.replicate n type.zero)
  resetElements : ∀ elements values, Triple (All type.Elem elements values)
    (resetElements type.config elements) fun _ => emp
  copyElements : ∀ elements values other others, elements.length = other.length →
    Triple (sep (All type.Elem elements values) (All type.Elem other others))
      (copyElements type.config elements other)
      fun results => sep (All type.Elem results others) (All type.Elem other others)

/-! ## Operations -/

theorem modify_eq_set {ι : Type} {xs : List ι} {i : ℕ} {x : ι} (f : ι → ι) (hx : xs[i]? = some x) :
    xs.modify i f = xs.set i (f x) := by
  refine List.ext_getElem? fun j => ?_
  rw [List.getElem?_modify, List.getElem?_set]
  split_ifs with hij hlt
  · rw [← hij, hx]
    rfl
  · exact absurd (List.getElem?_eq_some_iff.mp hx).1 hlt
  · exact Option.map_id' 

section Operations

variable {γ : Type} {a data : UInt32} {header : Header} {elements : List Element}
  {P P' : Assertion UInt32 Cell} {Q : γ → Assertion UInt32 Cell}

theorem getHeader_bind {next : Header → Mem γ} (hpre : P' = sep (cell a (.header header)) P)
    (hnext : Triple P' (next header) Q) : Triple P' (getHeader a >>= next) Q := by
  rw [getHeader, bind_assoc]
  refine Triple.read_bind hpre ?_
  rwa [pure_bind]

theorem getElements_bind (elements : List Element) {next : List Element → Mem γ}
    (hpre : P' = sep (cell data (.data elements)) P) (hnext : Triple P' (next elements) Q) :
    Triple P' (getElements data >>= next) Q := by
  rw [getElements, bind_assoc]
  refine Triple.read_bind hpre ?_
  rwa [pure_bind]

variable {malloc : Allocator UInt32 Cell 0} {type : ArrayType}

theorem write_triple (old : List Element) {count : UInt32} {values : List Value}
    (hdata : data ≠ 0) (hcount : count.toNat = values.length) (hne : values ≠ []) :
    Triple (sep (cell data (.data old)) (sep (All type.Elem elements values)
      (cell a (.header ⟨type.config.address, data, count⟩))))
      (Heap.write data (.data elements)) fun _ => type.Holds a values := by
  obtain ⟨value, values, rfl⟩ := List.exists_cons_of_ne_nil hne
  refine (Triple.write.frame _).imp (fun _ => id) fun _ h hsep => ?_
  refine ⟨data, elements, count, ⟨hdata, hcount⟩, cast (congrFun ?_ h) hsep⟩
  ac_rfl

theorem alloc_triple : Triple emp (alloc malloc type.config) fun a => type.Holds a [] :=
  Triple.alloc.imp (fun _ => id) fun _ _ => And.right

theorem reset_triple (hlawful : type.Lawful) {values : List Value} :
    Triple (type.Holds a values) (reset type.config a) fun _ => type.Holds a [] := by
  cases values with
  | nil =>
    refine getHeader_bind (sep_emp _).symm ?_
    exact Triple.pure (fun _ => type.Holds a []) ()
  | cons value values =>
    refine Triple.exist fun data => Triple.exist fun elements => Triple.exist fun count =>
      Triple.fact fun ⟨hdata, _⟩ => ?_
    refine getHeader_bind rfl ?_
    rw [if_neg hdata]
    refine getElements_bind elements ((sep_comm _ _).trans (sep_assoc _ _ _)) ?_
    refine (hlawful.resetElements elements _).bind_frame (R := sep (cell a _) (cell data _))
      (by ac_rfl) fun _ => ?_
    rw [emp_sep]
    refine Triple.free.bind_frame (sep_comm _ _) fun _ => ?_
    rw [emp_sep]
    exact Triple.write

theorem free_triple (hlawful : type.Lawful) {values : List Value} :
    Triple (type.Holds a values) (free type.config a) fun _ => emp :=
  (reset_triple hlawful).bind fun _ => Triple.free

theorem init_triple (hlawful : type.Lawful) {values : List Value} {count : UInt32} :
    Triple (type.Holds a values) (init malloc type.config a count)
      fun _ => type.Holds a (List.replicate count.toNat type.zero) := by
  refine Triple.guard_bind fun hcount => (reset_triple hlawful).bind fun _ =>
    Triple.guard_bind fun _ => ?_
  obtain ⟨n, hn⟩ := Nat.exists_eq_succ_of_ne_zero (UInt32.lt_iff_toNat_lt.mp hcount).ne'
  refine Triple.alloc.bind_frame (emp_sep _).symm fun data => ?_
  refine Triple.fact_sep fun hdata => ?_
  refine getHeader_bind (sep_comm _ _) ?_
  refine Triple.write.bind_frame (sep_comm _ _) fun _ => ?_
  refine getElements_bind _ (sep_comm _ _) ?_
  refine (hlawful.initElements count.toNat).bind_frame (emp_sep _).symm fun elements => ?_
  refine (write_triple (List.replicate count.toNat type.config.zero) hdata
    (List.length_replicate).symm (by simp [hn])).pre ?_
  ac_rfl

theorem holds_triple {values : List Value} {program : Mem γ} (hne : values ≠ [])
    (htriple : ∀ data elements count, data ≠ 0 → count.toNat = values.length →
      Triple (sep (sep (cell a (.header ⟨type.config.address, data, count⟩))
        (sep (cell data (.data elements)) (All type.Elem elements values))) P) program Q) :
    Triple (sep (type.Holds a values) P) program Q := by
  obtain ⟨value, values, rfl⟩ := List.exists_cons_of_ne_nil hne
  intro R h result k hsep hrun
  rw [sep_assoc] at hsep
  obtain ⟨data, hsep⟩ := sep_exists.mp hsep
  obtain ⟨elements, hsep⟩ := sep_exists.mp hsep
  obtain ⟨count, hsep⟩ := sep_exists.mp hsep
  obtain ⟨⟨hdata, hcount⟩, hsep⟩ := sep_fact.mp hsep
  rw [← sep_assoc] at hsep
  exact htriple data elements count hdata hcount R h result k hsep hrun

theorem holds_of_storage {count : UInt32} {values : List Value} (hne : values ≠ [])
    (hdata : data ≠ 0) (hcount : count.toNat = values.length) {h}
    (hsep : sep (cell a (.header ⟨type.config.address, data, count⟩))
      (sep (cell data (.data elements)) (All type.Elem elements values)) h) :
    type.Holds a values h := by
  obtain ⟨value, values, rfl⟩ := List.exists_cons_of_ne_nil hne
  exact ⟨data, elements, count, ⟨hdata, hcount⟩, hsep⟩

theorem header_triple {values : List Value} {next : Header → Mem γ}
    (hnext : ∀ header : Header, header.config = type.config.address →
      header.count.toNat = values.length → Triple (sep (type.Holds a values) P) (next header) Q) :
    Triple (sep (type.Holds a values) P) (getHeader a >>= next) Q := by
  rcases eq_or_ne values [] with rfl | hne
  · exact getHeader_bind rfl (hnext _ rfl rfl)
  · refine holds_triple hne fun data elements count hdata hcount => ?_
    refine getHeader_bind (sep_assoc _ _ _) ?_
    exact (hnext _ rfl hcount).imp (fun _ => sep_imp_left fun _ => holds_of_storage hne hdata hcount)
      fun _ _ => id

theorem update_triple {values : List Value} {index : ℕ} {change : Element → Mem Element}
    {effect : Value → Value}
    (hchange : ∀ element value, Triple (type.Elem element value) (change element)
      fun element => type.Elem element (effect value)) :
    Triple (type.Holds a values) (update a index change)
      fun _ => type.Holds a (values.modify index effect) := by
  rcases eq_or_ne values [] with rfl | hne
  · refine getHeader_bind (sep_emp _).symm ?_
    exact Triple.guard_bind fun hindex => absurd hindex (by simp)
  refine (holds_triple (P := emp) hne fun data elements count hdata hcount => ?_).pre
    (sep_emp _).symm
  rw [sep_emp]
  refine getHeader_bind rfl (Triple.guard_bind fun hindex => ?_)
  refine getElements_bind elements ((sep_comm _ _).trans (sep_assoc _ _ _)) ?_
  -- As there are as many elements as values, the element with the index is there.
  refine Triple.pre (P := sep (All type.Elem elements values)
    (sep (cell a (.header ⟨type.config.address, data, count⟩)) (cell data (.data elements))))
    (Triple.of_all fun hlength => ?_) (by ac_rfl)
  have hindex' : index < values.length := by simpa [hcount] using hindex
  have helement := List.getElem?_eq_getElem (hlength.symm ▸ hindex')
  have hvalue := List.getElem?_eq_getElem hindex'
  obtain ⟨S, hS, hset⟩ := All.focus (P := type.Elem) helement hvalue
  simp only [helement]
  refine (hchange elements[index] values[index]).bind_frame
    (R := sep S (sep (cell a (.header ⟨type.config.address, data, count⟩))
      (cell data (.data elements)))) (by rw [hS, sep_assoc]) fun element => ?_
  have hmodify := modify_eq_set effect hvalue
  refine (write_triple elements hdata (by simpa using hcount) (by simpa using hne)).pre ?_
  rw [hmodify, hset]
  ac_rfl

theorem copy_triple (hlawful : type.Lawful) {b : UInt32} {values others : List Value} :
    Triple (sep (type.Holds a values) (type.Holds b others)) (copy malloc type.config a b)
      fun _ => sep (type.Holds a others) (type.Holds b others) := by
  refine header_triple fun _ _ _ => ?_
  rw [sep_comm]
  refine header_triple fun _ _ _ => ?_
  rw [sep_comm]
  refine Triple.guard_bind fun _ => (reset_triple hlawful).bind_frame rfl fun _ => ?_
  rcases eq_or_ne others [] with rfl | hne
  · refine getHeader_bind (sep_comm _ _) ?_
    exact Triple.pure (fun _ => sep (type.Holds a []) (type.Holds b [])) ()
  rw [sep_comm]
  refine holds_triple hne fun dataB elementsB count hdataB hcount => ?_
  refine getHeader_bind (sep_assoc _ _ _) ?_
  have hzero : count ≠ 0 := by
    rintro rfl
    exact hne (List.length_eq_zero_iff.mp hcount.symm)
  rw [if_neg hzero]
  refine (init_triple hlawful).bind_frame (sep_comm _ _) fun _ => ?_
  dsimp only
  obtain ⟨blank, hblank⟩ : ∃ blank, List.replicate count.toNat type.zero = blank := ⟨_, rfl⟩
  have hlength : blank.length = others.length := by simpa [← hblank] using hcount
  have hfilled : blank ≠ [] := by
    rw [← List.length_pos_iff, hlength]
    exact List.length_pos_iff.mpr hne
  rw [hblank]
  refine holds_triple hfilled fun data elements countA hdata hcountA => ?_
  refine getHeader_bind (sep_assoc _ _ _) ?_
  dsimp only
  obtain ⟨A, hA⟩ : ∃ A, A = cell a (Cell.header ⟨type.config.address, data, countA⟩) := ⟨_, rfl⟩
  obtain ⟨B, hB⟩ : ∃ B, B = cell b (Cell.header ⟨type.config.address, dataB, count⟩) := ⟨_, rfl⟩
  obtain ⟨C, hC⟩ : ∃ C, C = cell dataB (Cell.data elementsB) := ⟨_, rfl⟩
  obtain ⟨D, hD⟩ : ∃ D, D = cell data (Cell.data elements) := ⟨_, rfl⟩
  rw [← hA, ← hB, ← hC, ← hD]
  refine getElements_bind elements (P := sep A (sep (All type.Elem elements blank)
    (sep B (sep C (All type.Elem elementsB others))))) (by rw [← hD]; ac_rfl) ?_
  refine getElements_bind elementsB (P := sep A (sep (All type.Elem elements blank)
    (sep B (sep D (All type.Elem elementsB others))))) (by rw [← hC]; ac_rfl) ?_
  -- There are as many elements as in the array that is copied.
  refine Triple.pre (P := sep (All type.Elem elements blank) (sep (All type.Elem elementsB others)
    (sep A (sep B (sep C D))))) (Triple.of_all fun hlengthA => ?_) (by ac_rfl)
  refine Triple.pre (P := sep (All type.Elem elementsB others) (sep (All type.Elem elements blank)
    (sep A (sep B (sep C D))))) (Triple.of_all fun hlengthB => ?_) (by ac_rfl)
  refine (hlawful.copyElements elements blank elementsB others (by omega)).bind_frame
    (R := sep A (sep B (sep C D))) (by ac_rfl) fun results => ?_
  have hwrite : Triple (sep D (sep (All type.Elem results others) A))
      (Heap.write data (.data results)) fun _ => type.Holds a others := by
    rw [hA, hD]
    exact write_triple elements hdata (hcountA.trans hlength) hne
  refine (hwrite.frame (sep B (sep C (All type.Elem elementsB others)))).imp
    (fun h hsep => ?_) fun _ h => ?_
  · refine cast (congrFun ?_ h) hsep
    ac_rfl
  · rw [hB, hC]
    exact sep_imp (fun _ => id) fun _ => holds_of_storage hne hdataB hcount

theorem copy_self_triple (hlawful : type.Lawful) {values : List Value} :
    Triple (type.Holds a values) (copy malloc type.config a a) fun _ => type.Holds a [] := by
  have hheader : ∀ {next : Header → Mem Unit}, (∀ header, Triple (type.Holds a values)
      (next header) fun _ => type.Holds a []) →
      Triple (type.Holds a values) (getHeader a >>= next) fun _ => type.Holds a [] :=
    fun hnext => (header_triple (P := emp) fun header _ _ => (hnext header).pre (sep_emp _)).pre
      (sep_emp _).symm
  refine hheader fun _ => hheader fun _ => Triple.guard_bind fun _ =>
    (reset_triple hlawful).bind fun _ => getHeader_bind (sep_emp _).symm ?_
  exact Triple.pure (fun _ => type.Holds a []) ()

end Operations

/-! ## Plain elements -/

def ArrayType.plain (address : UInt32) (typeSize : ℕ) : ArrayType where
  config := .plain address typeSize
  Elem element value := fun h =>
    (element.members = [] ∧ element.bytes.length = typeSize ∧ value = .mk element.bytes []) ∧ emp h
  zero := .mk (List.replicate typeSize 0) []

theorem plain_lawful (address : UInt32) (typeSize : ℕ) :
    (ArrayType.plain address typeSize).Lawful where
  initElements n := by
    refine (Triple.pure _ _).imp (fun h hemp => ?_) fun _ _ => id
    rw [ArrayType.plain, All.fact]
    refine ⟨?_, hemp⟩
    rw [List.forall₂_iff_get]
    exact ⟨by simp, fun i hi hi' => by simp [SimpleArrayConfig.plain]⟩
  resetElements elements values := by
    refine (Triple.pure (fun _ => emp) ()).imp (fun h hall => ?_) fun _ _ => id
    rw [ArrayType.plain, All.fact] at hall
    exact hall.2
  copyElements elements values other others _ := by
    refine (Triple.pure _ _).imp (fun h hsep => ?_) fun _ _ => id
    rw [ArrayType.plain, All.fact, All.fact, sep_fact, emp_sep] at hsep
    rw [ArrayType.plain, All.fact, sep_fact, emp_sep]
    exact ⟨hsep.2.1, hsep.2⟩

/-! ## Elements with arrays -/

/-- The arrays of an element. -/
def Members : List ArrayType → List UInt32 → List (List Value) → Assertion UInt32 Cell
  | [], [], [] => emp
  | type :: types, a :: as, values :: rest => sep (type.Holds a values) (Members types as rest)
  | _, _, _ => fun _ => False

def RecordElem (size : ℕ) (types : List ArrayType) (element : Element) :
    Value → Assertion UInt32 Cell
  | .mk bytes members => fun h =>
    (bytes = element.bytes ∧ bytes.length = size) ∧ Members types element.members members h

def ArrayType.record (malloc : Allocator UInt32 Cell 0) (address : UInt32) (layout : List Bool)
    (types : List ArrayType) (rest : ℕ) : ArrayType where
  config := .record malloc address layout (types.map ArrayType.config) rest
  Elem := RecordElem (layout.count true) types
  zero := .mk (List.replicate (layout.count true) 0) (types.map fun _ => [])

section Record

variable {malloc : Allocator UInt32 Cell 0}

theorem members_alloc : ∀ types : List ArrayType, Triple emp
    ((types.map ArrayType.config).mapM (alloc malloc))
    fun as => Members types as (types.map fun _ => [])
  | [] => by
    rw [List.map_nil, List.mapM_nil]
    exact Triple.pure (fun as => Members [] as []) []
  | type :: types => by
    rw [List.map_cons, List.mapM_cons]
    refine alloc_triple.bind fun a => ?_
    refine (members_alloc types).bind_frame (emp_sep _).symm fun as => ?_
    exact (Triple.pure (fun as => Members (type :: types) as ([] :: types.map fun _ => []))
      (a :: as)).pre (sep_comm _ _)

theorem members_free : ∀ {types : List ArrayType} {as : List UInt32} {values : List (List Value)},
    (∀ type ∈ types, type.Lawful) → Triple (Members types as values)
      (ForM.forM ((types.map ArrayType.config).zip as) fun member => free member.1 member.2)
      fun _ => emp
  | [], [], [], _ => Triple.pure (fun _ => emp) ()
  | type :: types, a :: as, values :: rest, hlawful => by
    rw [List.map_cons, List.zip_cons_cons, List.forM_cons]
    refine (free_triple (hlawful type List.mem_cons_self)).bind_frame rfl fun _ => ?_
    rw [emp_sep]
    exact members_free fun other hother => hlawful other (List.mem_cons_of_mem _ hother)
  | [], [], _ :: _, _ => fun _ _ _ _ ⟨_, _, hfalse, _⟩ => hfalse.elim
  | [], _ :: _, _, _ => fun _ _ _ _ ⟨_, _, hfalse, _⟩ => hfalse.elim
  | _ :: _, [], _, _ => fun _ _ _ _ ⟨_, _, hfalse, _⟩ => hfalse.elim
  | _ :: _, _ :: _, [], _ => fun _ _ _ _ ⟨_, _, hfalse, _⟩ => hfalse.elim

theorem members_copy {types : List ArrayType} {as bs : List UInt32}
    {values others : List (List Value)} (hlawful : ∀ type ∈ types, type.Lawful) :
    Triple (sep (Members types as values) (Members types bs others))
      (ForM.forM (((types.map ArrayType.config).zip as).zip bs) fun member =>
        copy malloc member.1.1 member.1.2 member.2)
      fun _ => sep (Members types as others) (Members types bs others) := by
  induction types generalizing as bs values others with
  | nil =>
    rcases as with _ | ⟨a, as⟩
    swap
    · exact .of_not (not_sep_left fun _ => id)
    rcases values with _ | ⟨values, rest⟩
    swap
    · exact .of_not (not_sep_left fun _ => id)
    rcases bs with _ | ⟨b, bs⟩
    swap
    · exact .of_not (not_sep_right fun _ => id)
    rcases others with _ | ⟨others, restB⟩
    swap
    · exact .of_not (not_sep_right fun _ => id)
    exact Triple.pure (fun _ => sep (Members [] [] []) (Members [] [] [])) ()
  | cons type types ih =>
    rcases as with _ | ⟨a, as⟩
    · exact .of_not (not_sep_left fun _ => id)
    rcases values with _ | ⟨values, rest⟩
    · exact .of_not (not_sep_left fun _ => id)
    rcases bs with _ | ⟨b, bs⟩
    · exact .of_not (not_sep_right fun _ => id)
    rcases others with _ | ⟨others, restB⟩
    · exact .of_not (not_sep_right fun _ => id)
    rw [List.map_cons, List.zip_cons_cons, List.zip_cons_cons, List.forM_cons]
    have hfirst : Triple (sep (type.Holds a values) (type.Holds b others))
        (copy malloc type.config a b) fun _ => sep (type.Holds a others) (type.Holds b others) :=
      copy_triple (hlawful type List.mem_cons_self)
    refine hfirst.bind_frame (R := sep (Members types as rest) (Members types bs restB)) ?_
      fun _ => ?_
    · simp only [Members]
      ac_rfl
    have hrest := @ih as bs rest restB fun other hother => hlawful other (List.mem_cons_of_mem _ hother)
    refine (hrest.frame (sep (type.Holds a others) (type.Holds b others))).imp
      (fun h hsep => ?_) fun _ h hsep => ?_
    · rwa [sep_comm]
    · refine cast (congrFun ?_ h) hsep
      simp only [Members]
      ac_rfl

theorem record_lawful {address : UInt32} {layout : List Bool} {types : List ArrayType} {rest : ℕ}
    (hlawful : ∀ type ∈ types, type.Lawful) :
    (ArrayType.record malloc address layout types rest).Lawful where
  initElements n := by
    refine Triple.mapM_replicate ?_ n
    refine (members_alloc types).bind fun as => ?_
    refine (Triple.pure (fun element => RecordElem (layout.count true) types element
      (.mk (List.replicate (layout.count true) 0) (types.map fun _ => []))) _).imp
      (fun h hmembers => ⟨⟨rfl, List.length_replicate⟩, hmembers⟩) fun _ _ => id
  resetElements elements values := by
    refine Triple.forM fun element value => ?_
    obtain ⟨bytes, members⟩ := value
    exact Triple.fact fun _ => members_free hlawful
  copyElements elements values other others hlength := by
    refine Triple.mapM_zip (fun element other value value' => ?_) hlength
    obtain ⟨bytes, members⟩ := value
    obtain ⟨bytes', members'⟩ := value'
    refine Triple.fact_sep fun _ => ?_
    rw [sep_comm]
    refine Triple.fact_sep fun hother => ?_
    rw [sep_comm]
    refine (members_copy hlawful).bind fun _ => ?_
    refine (Triple.pure (fun result => sep (RecordElem (layout.count true) types result
      (.mk bytes' members')) (RecordElem (layout.count true) types other (.mk bytes' members')))
      { element with bytes := other.bytes }).imp (fun h hsep => ?_) fun _ _ => id
    exact sep_imp (fun _ hmembers => ⟨hother, hmembers⟩) (fun _ hmembers => ⟨hother, hmembers⟩) hsep

end Record

/-- The configurations of plain elements and of elements with arrays of these, to any depth. -/
inductive ArrayType.Built (malloc : Allocator UInt32 Cell 0) : ArrayType → Prop
  | plain (address : UInt32) (typeSize : ℕ) : Built malloc (.plain address typeSize)
  | record (address : UInt32) (layout : List Bool) (types : List ArrayType) (rest : ℕ)
      (htypes : ∀ type ∈ types, Built malloc type) :
      Built malloc (.record malloc address layout types rest)

theorem ArrayType.Built.lawful {malloc : Allocator UInt32 Cell 0} {type : ArrayType}
    (hbuilt : type.Built malloc) : type.Lawful := by
  induction hbuilt with
  | plain address typeSize => exact plain_lawful address typeSize
  | record address layout types rest _ ih => exact record_lawful ih

/-! ## Writes -/

/-- What a program may do to an element by a pointer to it, with what this does to its value. -/
structure ElementWrite (type : ArrayType) where
  run : Element → Mem Element
  effect : Value → Value
  correct : ∀ element value, Triple (type.Elem element value) (run element)
    fun element => type.Elem element (effect value)

/-- Bytes of a plain element. -/
def ElementWrite.plain (address : UInt32) (typeSize : ℕ) (write : List UInt8 → List UInt8)
    (hlength : ∀ bytes, (write bytes).length = bytes.length) :
    ElementWrite (.plain address typeSize) where
  run element := pure { element with bytes := write element.bytes }
  effect := fun ⟨bytes, members⟩ => .mk (write bytes) members
  correct element value := by
    refine (Triple.pure _ _).imp (fun h helem => ?_) fun _ _ => id
    obtain ⟨⟨hmembers, hsize, rfl⟩, hemp⟩ := helem
    exact ⟨⟨hmembers, (hlength _).trans hsize, rfl⟩, hemp⟩

section RecordWrites

variable {malloc : Allocator UInt32 Cell 0} {address : UInt32} {layout : List Bool}
  {types : List ArrayType} {rest : ℕ}

/-- Fields of an element with arrays. -/
def ElementWrite.fields (write : List UInt8 → List UInt8)
    (hlength : ∀ bytes, (write bytes).length = bytes.length) :
    ElementWrite (.record malloc address layout types rest) where
  run element := pure { element with bytes := write element.bytes }
  effect := fun ⟨bytes, members⟩ => .mk (write bytes) members
  correct element value := by
    obtain ⟨bytes, members⟩ := value
    refine (Triple.pure _ _).imp (fun h helem => ?_) fun _ _ => id
    obtain ⟨⟨rfl, hsize⟩, hmembers⟩ := helem
    exact ⟨⟨rfl, (hlength _).trans hsize⟩, hmembers⟩

theorem members_focus : ∀ {types : List ArrayType} {as : List UInt32} {values : List (List Value)}
    {k : ℕ} {type : ArrayType}, types[k]? = some type → ∀ {h}, Members types as values h →
      ∃ (a : UInt32) (held : List Value) (R : Assertion UInt32 Cell), as[k]? = some a ∧
        Members types as values = sep (type.Holds a held) R ∧ ∀ effect : List Value → List Value,
          Members types as (values.modify k effect) = sep (type.Holds a (effect held)) R
  | type :: types, a :: as, values :: rest, 0, _, rfl, _, _ =>
    ⟨a, values, Members types as rest, rfl, rfl, fun _ => rfl⟩
  | type :: types, a :: as, values :: rest, k + 1, other, hother, _, ⟨_, _, _, hrest, _⟩ => by
    obtain ⟨b, held, R, hb, hR, heffect⟩ := @members_focus types as rest k other hother _ hrest
    refine ⟨b, held, sep (type.Holds a values) R, hb, ?_, fun effect => ?_⟩
    · rw [Members, hR]
      ac_rfl
    · rw [List.modify_succ_cons, Members, heffect]
      ac_rfl
  | [], _, _, _, _, htype, _, _ => absurd htype (by simp)
  | _ :: _, [], _, _, _, _, _, hfalse => hfalse.elim
  | _ :: _, _ :: _, [], _, _, _, _, hfalse => hfalse.elim

/-- What is done to one of the arrays of an element. -/
def ElementWrite.member (k : ℕ) {type : ArrayType} (htype : types[k]? = some type)
    (program : UInt32 → Mem Unit) (effect : List Value → List Value)
    (hprogram : ∀ a values, Triple (type.Holds a values) (program a)
      fun _ => type.Holds a (effect values)) :
    ElementWrite (.record malloc address layout types rest) where
  run element := do
    match element.members[k]? with
    | none => failure
    | some a =>
      program a
      pure element
  effect := fun ⟨bytes, members⟩ => .mk bytes (members.modify k effect)
  correct element value := by
    obtain ⟨bytes, members⟩ := value
    refine Triple.fact fun hbytes => ?_
    intro S h result h' hsep hrun
    obtain ⟨m, -, hmembers, -⟩ := id hsep
    obtain ⟨a, held, R, ha, hR, heffect⟩ := members_focus htype hmembers
    rw [ha] at hrun
    have htriple : Triple (Members types element.members members)
        (program a >>= fun _ => pure element)
        fun result => RecordElem (layout.count true) types result
          (.mk bytes (members.modify k effect)) := by
      refine (hprogram a held).bind_frame hR fun _ => ?_
      refine (Triple.pure (fun result => RecordElem (layout.count true) types result
        (.mk bytes (members.modify k effect))) element).imp (fun _ h => ⟨hbytes, ?_⟩) fun _ _ => id
      rwa [heffect]
    exact htriple S h result h' hsep hrun

end RecordWrites

/-! ## Comparisons -/

/-- The bytes of the elements of an array, as they lie in memory. -/
def storage (config : SimpleArrayConfig) (h : Heap UInt32 Cell) (a : UInt32) : List UInt8 :=
  match h.get a with
  | some (.header header) =>
    match h.get header.data with
    | some (.data elements) => elements.flatMap config.raw
    | _ => []
  | _ => []

section Comparison

variable {type : ArrayType} {a b : UInt32} {values others : List Value}
  {R : Assertion UInt32 Cell} {h : Heap UInt32 Cell}

theorem getHeader_run {header : Header} (hget : h.get a = some (.header header)) :
    getHeader a h = some (header, h) := by
  simp only [getHeader, bind, StateT.bind, Heap.read, hget, Option.map_some, Option.bind_some]
  rfl

theorem getElements_run {data : UInt32} {elements : List Element}
    (hget : h.get data = some (.data elements)) : getElements data h = some (elements, h) := by
  simp only [getElements, bind, StateT.bind, Heap.read, hget, Option.map_some, Option.bind_some]
  rfl

theorem holds_header (hsep : sep (type.Holds a values) R h) :
    ∃ header, h.get a = some (.header header) ∧ header.config = type.config.address ∧
      header.count.toNat = values.length ∧ (values = [] → header.data = 0) := by
  cases values with
  | nil => exact ⟨_, (cell_sep.mp hsep).1, rfl, rfl, fun _ => rfl⟩
  | cons value values =>
    obtain ⟨data, hsep⟩ := sep_exists.mp hsep
    obtain ⟨elements, hsep⟩ := sep_exists.mp hsep
    obtain ⟨count, hsep⟩ := sep_exists.mp hsep
    obtain ⟨⟨-, hcount⟩, hsep⟩ := sep_fact.mp hsep
    rw [sep_assoc] at hsep
    exact ⟨_, (cell_sep.mp hsep).1, rfl, hcount, fun hnil => absurd hnil (by simp)⟩

theorem holds_storage (hne : values ≠ []) (hsep : sep (type.Holds a values) R h) :
    ∃ data elements count, data ≠ 0 ∧ count.toNat = values.length ∧
      sep (cell a (.header ⟨type.config.address, data, count⟩)) (sep (cell data (.data elements))
        (sep (All type.Elem elements values) R)) h := by
  obtain ⟨value, values, rfl⟩ := List.exists_cons_of_ne_nil hne
  obtain ⟨data, hsep⟩ := sep_exists.mp hsep
  obtain ⟨elements, hsep⟩ := sep_exists.mp hsep
  obtain ⟨count, hsep⟩ := sep_exists.mp hsep
  obtain ⟨⟨hdata, hcount⟩, hsep⟩ := sep_fact.mp hsep
  rw [sep_assoc, sep_assoc] at hsep
  exact ⟨data, elements, count, hdata, hcount, hsep⟩

theorem holds_two (hne : values ≠ []) (hneB : others ≠ [])
    (hsep : sep (type.Holds a values) (sep (type.Holds b others) R) h) :
    ∃ dataA elementsA countA dataB elementsB countB, dataA ≠ 0 ∧ dataB ≠ 0 ∧
      sep (cell a (.header ⟨type.config.address, dataA, countA⟩)) (sep (cell dataA (.data elementsA))
        (sep (cell b (.header ⟨type.config.address, dataB, countB⟩))
          (sep (cell dataB (.data elementsB)) (sep (All type.Elem elementsA values)
            (sep (All type.Elem elementsB others) R))))) h := by
  obtain ⟨dataA, elementsA, countA, hdataA, -, hsepA⟩ := holds_storage hne hsep
  have hsepA' : sep (type.Holds b others) (sep (cell a
      (.header ⟨type.config.address, dataA, countA⟩)) (sep (cell dataA (.data elementsA))
      (sep (All type.Elem elementsA values) R))) h := by
    refine cast (congrFun ?_ h) hsepA
    ac_rfl
  obtain ⟨dataB, elementsB, countB, hdataB, -, hsepB⟩ := holds_storage hneB hsepA'
  refine ⟨dataA, elementsA, countA, dataB, elementsB, countB, hdataA, hdataB,
    cast (congrFun ?_ h) hsepB⟩
  ac_rfl

theorem holds_ne (hsep : sep (type.Holds a values) (sep (type.Holds b others) R) h) : a ≠ b := by
  rintro rfl
  obtain ⟨k, l, hk, hl, hapart, rfl⟩ := hsep
  obtain ⟨header, hget, -⟩ := holds_header (R := emp) (by rwa [sep_emp])
  obtain ⟨header', hget', -⟩ := holds_header hl
  rcases hapart a with hnone | hnone
  · simp [hnone] at hget
  · simp [hnone] at hget'

/-- Two arrays with a configuration are equal if they have as many elements and the first bytes, as
many as there are elements, are the same. -/
theorem isEqual_run (hsep : sep (type.Holds a values) (sep (type.Holds b others) R) h) :
    isEqual type.config a b h = some (decide (values.length = others.length ∧
      (storage type.config h a).take others.length = (storage type.config h b).take others.length),
        h) := by
  have hsepB : sep (type.Holds b others) (sep (type.Holds a values) R) h := by
    refine cast (congrFun ?_ h) hsep
    ac_rfl
  obtain ⟨headerA, hgetA, hconfigA, hcountA, hnilA⟩ := holds_header hsep
  obtain ⟨headerB, hgetB, hconfigB, hcountB, -⟩ := holds_header hsepB
  have hrun : isEqual type.config a b h = (if headerA.config ≠ headerB.config ∨
        headerA.count ≠ headerB.count then (pure false : Mem Bool)
      else if headerA.data = headerB.data ∨ headerA.data = 0 ∨ headerB.data = 0 then pure true
      else do
        let elements ← getElements headerA.data
        let otherElements ← getElements headerB.data
        pure ((elements.flatMap type.config.raw).take headerB.count.toNat ==
          (otherElements.flatMap type.config.raw).take headerB.count.toNat)) h := by
    rw [isEqual, if_neg (holds_ne hsep)]
    simp only [bind, StateT.bind, getHeader_run hgetA, getHeader_run hgetB, Option.bind_some]
  rw [hrun, hconfigA, hconfigB]
  by_cases hlength : values.length = others.length
  swap
  · rw [if_pos (.inr fun hcount => hlength (by rw [← hcountA, ← hcountB, hcount]))]
    simp only [hlength, false_and, decide_false]
    rfl
  have hcount : headerA.count = headerB.count :=
    UInt32.toNat_inj.mp (by rw [hcountA, hcountB, hlength])
  rw [if_neg (by simp [hcount])]
  rcases eq_or_ne values [] with rfl | hne
  · rw [if_pos (.inr (.inl (hnilA rfl)))]
    simp only [← hlength, List.length_nil, List.take_zero, and_self, decide_true]
    rfl
  have hneB : others ≠ [] := by
    rintro rfl
    exact hne (List.length_eq_zero_iff.mp hlength)
  obtain ⟨dataA, elementsA, countA, dataB, elementsB, countB, hdataA, hdataB, hcells⟩ :=
    holds_two hne hneB hsep
  obtain rfl : headerA = ⟨type.config.address, dataA, countA⟩ := by
    simpa using hgetA.symm.trans (cell_sep.mp hcells).1
  have helementsA := (cell_sep.mp (sep_swap hcells)).1
  have hcellsB : sep (cell b (.header ⟨type.config.address, dataB, countB⟩))
      (sep (cell dataB (.data elementsB)) (sep (cell dataA (.data elementsA))
        (sep (cell a (.header ⟨type.config.address, dataA, countA⟩))
          (sep (All type.Elem elementsA values) (sep (All type.Elem elementsB others) R))))) h := by
    refine cast (congrFun ?_ h) hcells
    ac_rfl
  obtain rfl : headerB = ⟨type.config.address, dataB, countB⟩ := by
    simpa using hgetB.symm.trans (cell_sep.mp hcellsB).1
  have helementsB := (cell_sep.mp (sep_swap hcellsB)).1
  have hdata : sep (cell dataA (.data elementsA)) (sep (cell dataB (.data elementsB))
      (sep (cell a (.header ⟨type.config.address, dataA, countA⟩))
        (sep (cell b (.header ⟨type.config.address, dataB, countB⟩))
          (sep (All type.Elem elementsA values) (sep (All type.Elem elementsB others) R))))) h := by
    refine cast (congrFun ?_ h) hcells
    ac_rfl
  have hdiffer : dataA ≠ dataB := cell_ne hdata
  rw [if_neg (by simp [hdiffer, hdataA, hdataB])]
  simp only [bind, StateT.bind, getElements_run helementsA, getElements_run helementsB,
    Option.bind_some, storage, hgetA, hgetB, helementsA, helementsB, hlength, true_and, hcountB]
  rw [← Bool.beq_eq_decide_eq]
  rfl

theorem storage_eq {data count : UInt32} {elements : List Element}
    (hsep : sep (cell a (.header ⟨type.config.address, data, count⟩))
      (sep (cell data (.data elements)) R) h) :
    storage type.config h a = elements.flatMap type.config.raw := by
  simp only [storage, (cell_sep.mp hsep).1, (cell_sep.mp (sep_swap hsep)).1]

def Value.bytes : Value → List UInt8
  | .mk bytes _ => bytes

theorem storage_plain {address : UInt32} {typeSize : ℕ} (hne : values ≠ [])
    (hsep : sep ((ArrayType.plain address typeSize).Holds a values) R h) :
    storage (.plain address typeSize) h a = values.flatMap Value.bytes ∧
      ∀ value ∈ values, ∃ bytes, bytes.length = typeSize ∧ value = .mk bytes [] := by
  obtain ⟨data, elements, count, -, -, hcells⟩ := holds_storage hne hsep
  have hall : List.Forall₂ (fun (element : Element) value => element.members = [] ∧
      element.bytes.length = typeSize ∧ value = Value.mk element.bytes []) elements values := by
    have hrest := (cell_sep.mp (cell_sep.mp hcells).2).2
    rw [ArrayType.plain, All.fact] at hrest
    exact (sep_fact.mp hrest).1
  have hstorage : storage (.plain address typeSize) h a =
      elements.flatMap (SimpleArrayConfig.plain address typeSize).raw := storage_eq hcells
  rw [hstorage]
  clear hstorage hcells hsep hne
  induction hall with
  | nil => exact ⟨rfl, by simp⟩
  | cons hfirst _ ih =>
    obtain ⟨-, hsize, rfl⟩ := hfirst
    rw [List.flatMap_cons, List.flatMap_cons, ih.1]
    exact ⟨rfl, List.forall_mem_cons.mpr ⟨⟨_, hsize, rfl⟩, ih.2⟩⟩

theorem flatMap_bytes {values : List Value}
    (hone : ∀ value ∈ values, ∃ bytes, bytes.length = 1 ∧ value = Value.mk bytes []) :
    (values.flatMap Value.bytes).length = values.length ∧
      values = (values.flatMap Value.bytes).map fun byte => .mk [byte] [] := by
  induction values with
  | nil => exact ⟨rfl, rfl⟩
  | cons value values ih =>
    obtain ⟨⟨bytes, hlength, rfl⟩, hrest⟩ := List.forall_mem_cons.mp hone
    obtain ⟨byte, rfl⟩ := List.length_eq_one_iff.mp hlength
    obtain ⟨ihlength, ihvalues⟩ := ih hrest
    rw [List.flatMap_cons]
    refine ⟨by simp [Value.bytes, ihlength], ?_⟩
    rw [List.map_append, ← ihvalues]
    rfl

/-- Arrays of single bytes are equal exactly if they hold the same. -/
theorem isEqual_bytes {address : UInt32}
    (hsep : sep ((ArrayType.plain address 1).Holds a values)
      (sep ((ArrayType.plain address 1).Holds b others) R) h) :
    isEqual (.plain address 1) a b h =
      some (decide (values.map Value.bytes = others.map Value.bytes), h) := by
  refine (isEqual_run hsep).trans ?_
  refine congrArg (fun result => some (result, h)) (decide_eq_decide.mpr ?_)
  constructor
  · rintro ⟨hlength, htake⟩
    rcases eq_or_ne values [] with rfl | hne
    · rw [List.length_eq_zero_iff.mp hlength.symm]
    have hneB : others ≠ [] := by
      rintro rfl
      exact hne (List.length_eq_zero_iff.mp hlength)
    obtain ⟨hstorageA, honeA⟩ := storage_plain hne hsep
    obtain ⟨hstorageB, honeB⟩ := storage_plain hneB (sep_swap hsep)
    obtain ⟨hlengthA, hvaluesA⟩ := flatMap_bytes honeA
    obtain ⟨hlengthB, hvaluesB⟩ := flatMap_bytes honeB
    have hbytes : values.flatMap Value.bytes = others.flatMap Value.bytes := by
      rw [← hlength] at htake
      rw [← List.take_of_length_le hlengthA.le,
        ← List.take_of_length_le (hlengthB.trans hlength.symm).le, ← hstorageA, ← hstorageB]
      exact htake
    rw [hvaluesA, hvaluesB, hbytes]
  · intro hbytes
    have hlength : values.length = others.length := by
      simpa using congrArg List.length hbytes
    refine ⟨hlength, ?_⟩
    rcases eq_or_ne values [] with rfl | hne
    · simp [← hlength]
    have hneB : others ≠ [] := by
      rintro rfl
      exact hne (List.length_eq_zero_iff.mp hlength)
    have hstorageA := (storage_plain hne hsep).1
    have hstorageB := (storage_plain hneB (sep_swap hsep)).1
    refine congrArg (List.take others.length) (hstorageA.trans (Eq.trans ?_ hstorageB.symm))
    rw [List.flatMap_def, List.flatMap_def, hbytes]

@[simp] theorem length_place : ∀ (layout : List Bool) (bytes : List UInt8),
    (place layout bytes).length = layout.length
  | [], _ => rfl
  | true :: layout, _ :: bytes => congrArg (· + 1) (length_place layout bytes)
  | true :: layout, [] => congrArg (· + 1) (length_place layout [])
  | false :: layout, bytes => congrArg (· + 1) (length_place layout bytes)

theorem pointer_injective {p q : UInt32} (hpointer : pointer p = pointer q) : p = q := by
  simp only [pointer, List.cons.injEq, and_true, ← UInt8.toNat_inj, UInt32.toNat_toUInt8,
    UInt32.toNat_shiftRight, Nat.shiftRight_eq_div_pow] at hpointer
  obtain ⟨h0, h1, h2, h3⟩ := hpointer
  have hp := p.toNat_lt
  have hq := q.toNat_lt
  simp at h1 h2 h3
  exact UInt32.toNat_inj.mp (by omega)

theorem all_record_first {malloc : Allocator UInt32 Cell 0} {address : UInt32} {layout : List Bool}
    {types : List ArrayType} {rest : ℕ} {elements : List Element} (hne : values ≠ [])
    (hsep : sep (All (ArrayType.record malloc address layout (type :: types) rest).Elem elements
      values) R h) :
    ∃ bytes p ps more held S, elements = ⟨bytes, p :: ps⟩ :: more ∧
      sep (type.Holds p held) (sep S R) h := by
  obtain ⟨⟨bytes, members⟩, values, rfl⟩ := List.exists_cons_of_ne_nil hne
  cases elements with
  | nil =>
    obtain ⟨_, _, hfalse, -⟩ := hsep
    exact hfalse.elim
  | cons element more =>
    rw [All, sep_assoc] at hsep
    obtain ⟨-, hsep⟩ := sep_fact.mp hsep
    obtain ⟨_, _, hmembers, -⟩ := id hsep
    obtain ⟨p, held, S, hp, hS, -⟩ := members_focus (k := 0) rfl hmembers
    obtain ⟨bytes', as⟩ := element
    obtain ⟨a, ps, rfl⟩ : ∃ a ps, as = a :: ps := List.exists_cons_of_ne_nil (by
      rintro rfl
      simp at hp)
    obtain rfl : a = p := by simpa using hp
    rw [hS, sep_assoc] at hsep
    exact ⟨bytes', a, ps, more, held, sep S (All (ArrayType.record malloc address layout
      (type :: types) rest).Elem more values), rfl, by rwa [sep_assoc]⟩

theorem take_first_pointer {malloc : Allocator UInt32 Cell 0} {address p : UInt32}
    {layout : List Bool} {types : List ArrayType} {rest n : ℕ} {bytes : List UInt8}
    {ps : List UInt32} {more : List Element} (hn : layout.length + 4 ≤ n) :
    ((((⟨bytes, p :: ps⟩ :: more : List Element).flatMap
      (ArrayType.record malloc address layout types rest).config.raw).take n).drop
        layout.length).take 4 = pointer p := by
  rw [List.drop_take, List.take_take, Nat.min_eq_left (by omega)]
  simp only [ArrayType.record, SimpleArrayConfig.record, List.flatMap_cons, List.append_assoc]
  rw [List.drop_left' (length_place layout bytes)]
  exact List.take_left' rfl

/-- Arrays of elements with arrays are never equal when the first pointer is among what is compared.
-/
theorem isEqual_record {malloc : Allocator UInt32 Cell 0} {address : UInt32} {layout : List Bool}
    {types : List ArrayType} {rest : ℕ} (hcount : layout.length + 4 ≤ values.length)
    (hsep : sep ((ArrayType.record malloc address layout (type :: types) rest).Holds a values)
      (sep ((ArrayType.record malloc address layout (type :: types) rest).Holds b others) R) h) :
    isEqual (ArrayType.record malloc address layout (type :: types) rest).config a b h =
      some (false, h) := by
  rw [isEqual_run hsep]
  refine congrArg (fun result => some (result, h)) (decide_eq_false ?_)
  rintro ⟨hlength, htake⟩
  have hne : values ≠ [] := List.ne_nil_of_length_pos (by omega)
  have hneB : others ≠ [] := List.ne_nil_of_length_pos (by omega)
  obtain ⟨dataA, elementsA, countA, dataB, elementsB, countB, -, -, hcells⟩ :=
    holds_two hne hneB hsep
  have hcellsB : sep (cell b (.header ⟨address, dataB, countB⟩)) (sep (cell dataB (.data elementsB))
      (sep (cell dataA (.data elementsA)) (sep (cell a (.header ⟨address, dataA, countA⟩))
        (sep (All (ArrayType.record malloc address layout (type :: types) rest).Elem elementsA
          values) (sep (All (ArrayType.record malloc address layout (type :: types) rest).Elem
            elementsB others) R))))) h := by
    refine cast (congrFun ?_ h) hcells
    ac_rfl
  rw [storage_eq hcells, storage_eq hcellsB] at htake
  obtain ⟨k, hall⟩ : ∃ k, sep (All (ArrayType.record malloc address layout (type :: types) rest).Elem
      elementsA values) (sep (All (ArrayType.record malloc address layout (type :: types) rest).Elem
        elementsB others) R) k :=
    ⟨_, (cell_sep.mp (cell_sep.mp (cell_sep.mp (cell_sep.mp hcells).2).2).2).2⟩
  obtain ⟨bytesA, p, psA, moreA, heldA, S, rfl, hfirst⟩ := all_record_first hne hall
  have hnext : sep (All (ArrayType.record malloc address layout (type :: types) rest).Elem
      elementsB others) (sep (type.Holds p heldA) (sep S R)) k := by
    refine cast (congrFun ?_ k) hfirst
    ac_rfl
  obtain ⟨bytesB, q, psB, moreB, heldB, T, rfl, hsecond⟩ := all_record_first hneB hnext
  have hpair : sep (type.Holds q heldB) (sep (type.Holds p heldA) (sep T (sep S R))) k := by
    refine cast (congrFun ?_ k) hsecond
    ac_rfl
  have hpointers := congrArg (fun bytes => (bytes.drop layout.length).take 4) htake
  simp only [take_first_pointer (hlength ▸ hcount)] at hpointers
  exact holds_ne hpair (pointer_injective hpointers).symm

/-- A comparison has this result and changes nothing, whatever there is besides. -/
def Compares (P : Assertion UInt32 Cell) (program : Mem Bool) (result : Bool) : Prop :=
  ∀ R h, sep P R h → program h = some (result, h)

theorem compares_bytes (address a b : UInt32) (values others : List Value) :
    Compares (sep ((ArrayType.plain address 1).Holds a values)
      ((ArrayType.plain address 1).Holds b others)) (isEqual (.plain address 1) a b)
      (decide (values.map Value.bytes = others.map Value.bytes)) := by
  intro R h hsep
  rw [sep_assoc] at hsep
  exact isEqual_bytes hsep

theorem compares_record (malloc : Allocator UInt32 Cell 0) (address a b : UInt32)
    {layout : List Bool} (types : List ArrayType) (rest : ℕ) {values : List Value}
    (others : List Value) (hcount : layout.length + 4 ≤ values.length) :
    Compares (sep ((ArrayType.record malloc address layout (type :: types) rest).Holds a values)
      ((ArrayType.record malloc address layout (type :: types) rest).Holds b others))
      (isEqual (ArrayType.record malloc address layout (type :: types) rest).config a b) false := by
  intro R h hsep
  rw [sep_assoc] at hsep
  exact isEqual_record hcount hsep

end Comparison

/-! ## Runs -/

/-- Arrays that are not part of each other. A configuration is known by where it is. -/
structure System (malloc : Allocator UInt32 Cell 0) (ι : Type) where
  type : ι → ArrayType
  built : ∀ i, (type i).Built malloc
  address : ι → UInt32
  address_inj : ∀ i j, (type i).config.address = (type j).config.address → type i = type j

theorem System.lawful {malloc : Allocator UInt32 Cell 0} {ι : Type} (system : System malloc ι)
    (i : ι) : (system.type i).Lawful :=
  (system.built i).lawful

inductive Op {malloc : Allocator UInt32 Cell 0} {ι : Type} (system : System malloc ι)
  | init (i : ι) (count : UInt32)
  | reset (i : ι)
  | copy (i j : ι)
  | update (i : ι) (index : ℕ) (write : ElementWrite (system.type i))

section Runs

variable {malloc : Allocator UInt32 Cell 0} {ι : Type} [DecidableEq ι] {system : System malloc ι}

def Op.apply : Op system → Mem Unit
  | .init i count => SimpleArray.init malloc (system.type i).config (system.address i) count
  | .reset i => SimpleArray.reset (system.type i).config (system.address i)
  | .copy i j => SimpleArray.copy malloc (system.type i).config (system.address i) (system.address j)
  | .update i index write => SimpleArray.update (system.address i) index write.run

/-- What an operation is to the values. A copy of an array to itself leaves it empty. -/
def Op.effect (op : Op system) (values : ι → List Value) : ι → List Value :=
  match op with
  | .init i count => Function.update values i (List.replicate count.toNat (system.type i).zero)
  | .reset i => Function.update values i []
  | .copy i j => Function.update values i (if i = j then [] else values j)
  | .update i index write => Function.update values i ((values i).modify index write.effect)

def run (ops : List (Op system)) : Mem Unit :=
  match ops with
  | [] => pure ()
  | op :: ops => op.apply >>= fun _ => run ops

def effects (ops : List (Op system)) (values : ι → List Value) : ι → List Value :=
  ops.foldl (fun values op => op.effect values) values

/-- Each array holds its values, apart from all others. -/
def System.Holds (system : System malloc ι) (values : ι → List Value) : Assertion UInt32 Cell :=
  EachOn (fun _ => True) fun i => (system.type i).Holds (system.address i) (values i)

/-- All arrays but one. -/
def System.Rest (system : System malloc ι) (i : ι) (values : ι → List Value) :
    Assertion UInt32 Cell :=
  EachOn (fun j => True ∧ j ≠ i) fun j => (system.type j).Holds (system.address j) (values j)

theorem holds_split (i : ι) (values : ι → List Value) : system.Holds values =
    sep ((system.type i).Holds (system.address i) (values i)) (system.Rest i values) :=
  eachOn_split trivial

theorem holds_update (i : ι) (values : ι → List Value) (held : List Value) :
    system.Holds (Function.update values i held) =
      sep ((system.type i).Holds (system.address i) held) (system.Rest i values) := by
  rw [holds_split i, Function.update_self]
  refine congrArg _ (eachOn_congr fun j hj => ?_)
  rw [Function.update_of_ne hj.2]

theorem rest_split (system : System malloc ι) {i j : ι} (hij : j ≠ i) (values : ι → List Value) : ∃ R,
    system.Rest i values = sep ((system.type j).Holds (system.address j) (values j)) R :=
  ⟨_, eachOn_split ⟨trivial, hij⟩⟩

theorem single_triple {i : ι} {values : ι → List Value} {held : List Value} {program : Mem Unit}
    (htriple : Triple ((system.type i).Holds (system.address i) (values i)) program
      fun _ => (system.type i).Holds (system.address i) held) :
    Triple (system.Holds values) program fun _ => system.Holds (Function.update values i held) := by
  rw [holds_split i, holds_update]
  exact htriple.frame _

theorem copy_fails {type other : ArrayType} {a b : UInt32} {values others : List Value}
    {Q : Unit → Assertion UInt32 Cell} (hne : type.config.address ≠ other.config.address) :
    Triple (sep (type.Holds a values) (other.Holds b others)) (copy malloc type.config a b) Q := by
  refine header_triple fun header hconfig _ => ?_
  rw [sep_comm]
  refine header_triple fun header' hconfig' _ => Triple.guard_bind fun hsame => ?_
  exact absurd (hconfig.symm.trans (hsame.trans hconfig')) hne

theorem apply_triple (op : Op system) (values : ι → List Value) :
    Triple (system.Holds values) op.apply fun _ => system.Holds (op.effect values) := by
  cases op with
  | init i count => exact single_triple (init_triple (system.lawful i))
  | reset i => exact single_triple (reset_triple (system.lawful i))
  | update i index write => exact single_triple (update_triple write.correct)
  | copy i j =>
    rw [Op.effect]
    split_ifs with hij
    · rw [← hij]
      exact single_triple (copy_self_triple (system.lawful i))
    obtain ⟨R, hR⟩ := rest_split system (fun h => hij h.symm) values
    have hcopy : Triple (sep ((system.type i).Holds (system.address i) (values i))
        ((system.type j).Holds (system.address j) (values j)))
        (copy malloc (system.type i).config (system.address i) (system.address j))
        fun _ => sep ((system.type i).Holds (system.address i) (values j))
          ((system.type j).Holds (system.address j) (values j)) := by
      by_cases hsame : system.type i = system.type j
      · rw [← hsame]
        exact copy_triple (system.lawful i)
      · exact copy_fails fun haddress => hsame (system.address_inj i j haddress)
    rw [holds_split i, holds_update, hR, ← sep_assoc, ← sep_assoc]
    exact hcopy.frame R

theorem run_triple : ∀ (ops : List (Op system)) (values : ι → List Value),
    Triple (system.Holds values) (run ops) fun _ => system.Holds (effects ops values)
  | [], values => Triple.pure (fun _ => system.Holds values) ()
  | op :: ops, values => (apply_triple op values).bind fun _ => run_triple ops (op.effect values)

/-- The bytes of an array that are compared with those of one with as many elements. -/
def front (system : System malloc ι) (h : Heap UInt32 Cell) (values : ι → List Value) (i : ι) :
    List UInt8 :=
  (storage (system.type i).config h (system.address i)).take (values i).length

/-- Two arrays differ, but not in the bytes that are compared. -/
def Hides (system : System malloc ι) (h : Heap UInt32 Cell) (values : ι → List Value) (i j : ι) :
    Prop :=
  (values i).length = (values j).length ∧ values i ≠ values j ∧
    front system h values i = front system h values j

/-- Two arrays hold the same, but not in the bytes that are compared. -/
def Shows (system : System malloc ι) (h : Heap UInt32 Cell) (values : ι → List Value) (i j : ι) :
    Prop :=
  values i = values j ∧ front system h values i ≠ front system h values j

/-- The arrays are as their values: they hold them without sharing memory, two of one configuration
are equal if their values are, and so are two cards with such arrays that are the same in all else.
-/
structure KeepsValues (system : System malloc ι) (h : Heap UInt32 Cell) (values : ι → List Value) :
    Prop where
  holds : system.Holds values h
  arrays : ∀ i j, i ≠ j → system.type i = system.type j →
    (isEqual (system.type i).config (system.address i) (system.address j) h = some (true, h) ↔
      values i = values j)
  cards : ∀ i j, i ≠ j → system.type i = system.type j →
    (system.type i).config = felicaSystemArrayCfg malloc → ∀ data other : FelicaArrayData,
    data.systems = system.address i → other.systems = system.address j →
    (data.isEqual malloc other h = some (true, h) ↔
      (data.idm = other.idm ∧ data.pmm = other.pmm ∧ data.blocksTotal = other.blocksTotal ∧
        data.blocksRead = other.blocksRead ∧ data.dump = other.dump) ∧ values i = values j)

theorem isEqual_iff {values : ι → List Value} {h : Heap UInt32 Cell} {i j : ι}
    (hholds : system.Holds values h) (hij : i ≠ j) (htype : system.type i = system.type j) :
    isEqual (system.type i).config (system.address i) (system.address j) h = some (true, h) ↔
      (values i).length = (values j).length ∧ front system h values i = front system h values j := by
  obtain ⟨R, hR⟩ := rest_split system hij.symm values
  rw [holds_split i, hR, ← htype] at hholds
  rw [isEqual_run hholds, front, front, ← htype]
  simp only [Option.some.injEq, Prod.mk.injEq, decide_eq_true_eq, and_true]
  exact and_congr_right fun hlength => by rw [hlength]

/-- After a run the arrays are as their values exactly if no two of one configuration differ behind
the bytes that are compared, and no two that hold the same differ in them. -/
theorem keepsValues_iff {ops : List (Op system)} {values : ι → List Value}
    {h k : Heap UInt32 Cell} (hstart : system.Holds values h) (hrun : run ops h = some ((), k)) :
    KeepsValues system k (effects ops values) ↔
      ∀ i j, i ≠ j → system.type i = system.type j →
        ¬ Hides system k (effects ops values) i j ∧ ¬ Shows system k (effects ops values) i j := by
  have hholds : system.Holds (effects ops values) k := by
    have hend := run_triple ops values emp h () k (by rwa [sep_emp]) hrun
    rwa [sep_emp] at hend
  constructor
  · intro hkeeps i j hij htype
    have hiff := hkeeps.arrays i j hij htype
    rw [isEqual_iff hholds hij htype] at hiff
    refine ⟨fun ⟨hlength, hne, hfront⟩ => hne (hiff.mp ⟨hlength, hfront⟩), fun ⟨heq, hfront⟩ => ?_⟩
    exact hfront (hiff.mpr heq).2
  · intro hall
    have harrays : ∀ i j, i ≠ j → system.type i = system.type j →
        (isEqual (system.type i).config (system.address i) (system.address j) k = some (true, k) ↔
          effects ops values i = effects ops values j) := by
      intro i j hij htype
      obtain ⟨hhides, hshows⟩ := hall i j hij htype
      rw [isEqual_iff hholds hij htype]
      refine ⟨fun ⟨hlength, hfront⟩ => ?_, fun heq => ⟨by rw [heq], ?_⟩⟩
      · exact not_not.mp fun hne => hhides ⟨hlength, hne, hfront⟩
      · exact not_not.mp fun hne => hshows ⟨heq, hne⟩
    refine ⟨hholds, harrays, fun i j hij htype hconfig data other hdata hother => ?_⟩
    rw [FelicaArrayData.isEqual]
    split_ifs with hfields
    · rw [hdata, hother, ← hconfig, harrays i j hij htype]
      exact ⟨fun heq => ⟨hfields, heq⟩, And.right⟩
    · refine iff_of_false (fun heq => ?_) fun hsame => hfields hsame.1
      have hsome : some (false, k) = some (true, k) := heq
      cases hsome

end Runs

/-! ## Cards -/

section Cards

variable (malloc : Allocator UInt32 Cell 0)

def mfDesfireFileDataType : ArrayType := .record malloc 6 [] [.plain 1 1] 60

def mfDesfireApplicationType : ArrayType :=
  .record malloc 7 [true, true, true, true, true, true, true, false]
    [.plain 2 1, .plain 4 1, .plain 5 48, mfDesfireFileDataType malloc] 0

def felicaSystemType : ArrayType :=
  .record malloc 11 [true, false, true, true, true, true, false, false]
    [.plain 8 6, .plain 9 10, .plain 10 22] 0

theorem mfDesfireApplication_built : (mfDesfireApplicationType malloc).Built malloc ∧
    (mfDesfireApplicationType malloc).config = mfDesfireApplicationArrayConfig malloc := by
  refine ⟨.record _ _ _ _ ?_, rfl⟩
  simp only [List.forall_mem_cons]
  refine ⟨.plain _ _, .plain _ _, .plain _ _, .record _ _ _ _ ?_, by simp⟩
  simpa using ArrayType.Built.plain 1 1

theorem felicaSystem_built : (felicaSystemType malloc).Built malloc ∧
    (felicaSystemType malloc).config = felicaSystemArrayCfg malloc := by
  refine ⟨.record _ _ _ _ ?_, rfl⟩
  simp only [List.forall_mem_cons]
  exact ⟨.plain _ _, .plain _ _, .plain _ _, by simp⟩

end Cards

/-- The first of some addresses that is not in use. -/
def firstFree : Allocator UInt32 Cell 0 where
  next h := ((List.range 64).map UInt32.ofNat).find? fun a => a != 0 && (h.get a).isNone
  fresh hnext := by
    have hfound := List.find?_some hnext
    simpa using hfound

/-- Four files and a copy of them. -/
theorem compares_record_fileData : Compares
    (sep ((mfDesfireFileDataType firstFree).Holds 1 (List.replicate 4 (.mk [] [.nil])))
      ((mfDesfireFileDataType firstFree).Holds 2 (List.replicate 4 (.mk [] [.nil]))))
    (isEqual (mfDesfireFileDataArrayConfig firstFree) 1 2) false :=
  compares_record firstFree 6 1 2 [] 60 _ (by decide)

/-- Two arrays of the ids of applications. -/
def appIds : System firstFree Bool where
  type _ := .plain 3 3
  built _ := .plain 3 3
  address side := if side then 2 else 1
  address_inj _ _ _ := rfl

def emptyArrays : Heap UInt32 Cell :=
  (Heap.empty.set 1 (some (.header ⟨3, 0, 0⟩))).set 2 (some (.header ⟨3, 0, 0⟩))

theorem emptyArrays_holds : appIds.Holds (fun _ => []) emptyArrays := by
  have hget : ∀ (side : Bool) (a : UInt32), (Heap.empty.set (appIds.address side)
      (some (.header ⟨3, 0, 0⟩)) : Heap UInt32 Cell).get a =
        if a = appIds.address side then some (.header ⟨3, 0, 0⟩) else none := fun _ _ => rfl
  refine ⟨fun side => Heap.empty.set (appIds.address side) (some (.header ⟨3, 0, 0⟩)),
    fun _ _ => rfl, fun i j _ _ hij a => ?_, fun a b => ?_⟩
  · rw [hget, hget]
    by_cases hi : a = appIds.address i
    · have haddress : ∀ i j, appIds.address i = appIds.address j → i = j := by decide
      exact .inr (if_neg fun hj => hij (haddress i j (hi.symm.trans hj)))
    · exact .inl (if_neg hi)
  · simp only [hget, true_and, Bool.exists_bool]
    by_cases hone : a = 1
    · subst hone
      simp [emptyArrays, Heap.set, appIds]
    · by_cases htwo : a = 2
      · subst htwo
        simp [emptyArrays, Heap.set, appIds]
      · simp [emptyArrays, Heap.set, appIds, hone, htwo]

/-- One id, and a copy of it. -/
def copiedIds : List (Op appIds) := [.init false 1, .copy true false]

theorem run_some (ops : List (Op appIds)) (hsome : (run ops emptyArrays).isSome = true) :
    ∃ k, run ops emptyArrays = some ((), k) := by
  obtain ⟨⟨_, k⟩, hrun⟩ := Option.isSome_iff_exists.mp hsome
  exact ⟨k, hrun⟩

theorem keepsValues_copy : ∃ k, run copiedIds emptyArrays = some ((), k) ∧
    KeepsValues appIds k (effects copiedIds fun _ => []) := by
  obtain ⟨k, hrun⟩ := run_some copiedIds (by decide +kernel)
  have hvalues : ∀ i j, effects copiedIds (fun _ => []) i = effects copiedIds (fun _ => []) j := by
    intro i j
    cases i <;> cases j <;> rfl
  have hfronts : ∀ i, (run copiedIds emptyArrays).map (fun result =>
      front appIds result.2 (effects copiedIds fun _ => []) i) = some [0] := by
    decide +kernel
  have hfront : ∀ i, front appIds k (effects copiedIds fun _ => []) i = [0] := by
    intro i
    have hmap := hfronts i
    rw [hrun] at hmap
    exact Option.some.inj hmap
  refine ⟨k, hrun, (keepsValues_iff emptyArrays_holds hrun).mpr fun i j _ _ => ⟨?_, ?_⟩⟩
  · exact fun hhides => hhides.2.1 (hvalues i j)
  · exact fun hshows => hshows.2 (by rw [hfront i, hfront j])

/-- One id of each, that differ in the second byte. -/
def differentIds : List (Op appIds) :=
  [.init false 1, .init true 1, .update true 0 (.plain 3 3 (·.set 1 9) fun _ => List.length_set)]

theorem not_keepsValues : ∃ k, run differentIds emptyArrays = some ((), k) ∧
    ¬ KeepsValues appIds k (effects differentIds fun _ => []) := by
  obtain ⟨k, hrun⟩ := run_some differentIds (by decide +kernel)
  have hequal : (run differentIds emptyArrays).bind (fun result =>
      (isEqual (appIds.type false).config (appIds.address false) (appIds.address true)
        result.2).map Prod.fst) = some true := by decide +kernel
  refine ⟨k, hrun, fun hkeeps => ?_⟩
  obtain ⟨R, hR⟩ := @rest_split _ _ _ appIds false true (by decide)
    (effects differentIds fun _ => [])
  have hholds := hkeeps.holds
  rw [holds_split false, hR] at hholds
  have hcompare := isEqual_run hholds
  rw [hrun] at hequal
  have htrue : isEqual (appIds.type false).config (appIds.address false) (appIds.address true) k =
      some (true, k) := by
    have hresult : (isEqual (appIds.type false).config (appIds.address false)
      (appIds.address true) k).map Prod.fst = some true := hequal
    refine hcompare.trans ?_
    rw [hcompare] at hresult
    exact congrArg (fun result => some (result, k)) (Option.some.inj hresult)
  have hsame := (hkeeps.arrays false true (by decide) rfl).mp htrue
  exact absurd (congrArg (List.map Value.bytes) hsame) (by decide)

end SimpleArray

end KiisuFirmware
