import JackCompiler.Proofs.Recognition.Declarations
/-!
# A symbol table is two lists of declarations

Whatever is declared in a table, in whatever order and however often a subroutine starts, the table
is the variables declared in the class and those declared in the subroutine, each list in order and
each variable numbered by those of its storage before it (`SymbolTable.table_follows`). From this
follow the numbers of the variables and what a name means (`Declared.Valid.describes`). The numbers
of a table have 16 bits, so neither list may have more than 65535 variables (`Declared.Bounded`).
-/

namespace JackCompiler

open Syntax (Variable Slot numbered numberedAfter numbered_append numberedAfter_countP
  find?_numbered find?_numbered_none)

/-! ## Numbered variables -/

/-- Variables are numbered by those of their storage, without a gap. -/
theorem numberedAfter_indices (earlier vs : List Variable) (storage : Storage) :
    ((numberedAfter earlier vs).filter (·.storage = storage)).map (·.index) =
      List.range' (earlier.countP (·.storage = storage)) (vs.countP (·.storage = storage)) := by
  induction vs generalizing earlier with
  | nil => rfl
  | cons v vs ih =>
    rw [numberedAfter, List.countP_cons]
    by_cases h : v.storage = storage
    · subst h
      rw [List.filter_cons_of_pos (by simp), List.map_cons, ih, List.countP_append]
      simp [List.range'_succ]
    · rw [List.filter_cons_of_neg (by simpa using h), ih, List.countP_append]
      simp [h]

theorem numberedAfter_variables (earlier vs : List Variable) :
    (numberedAfter earlier vs).map (fun slot => ⟨slot.name, slot.type, slot.storage⟩) = vs := by
  induction vs generalizing earlier with
  | nil => rfl
  | cons v vs ih => rw [numberedAfter, List.map_cons, ih]

theorem numbered_indices (vs : List Variable) (storage : Storage) :
    ((numbered vs).filter (·.storage = storage)).map (·.index) =
      List.range (vs.countP (·.storage = storage)) := by
  rw [numbered, numberedAfter_indices, List.range_eq_range']
  rfl

/-! ## Calls -/

namespace SymbolTable

/-- A call that can change a table. -/
inductive Call
  | define (name type : String) (storage : Storage)
  | startSubroutine
  deriving DecidableEq, Repr

/-- What a call is answered with. -/
inductive Reply
  | defined (index : Nat)
  | started
  | failed (fault : Fault)
  deriving DecidableEq, Repr

/-- What a table does on a call. -/
def call (table : SymbolTable) : Call → Reply × SymbolTable
  | .define name type storage =>
    match table.define name type storage with
    | .ok (index, table) => (.defined index.toNat, table)
    | .error fault => (.failed fault, table)
  | .startSubroutine => (.started, table.startSubroutine)

/-- The replies to calls, each on the table that the one before has left, and the last table. -/
def calls (table : SymbolTable) : List Call → List Reply × SymbolTable
  | [] => ([], table)
  | call :: more =>
    let (reply, table) := table.call call
    let (replies, table) := table.calls more
    (reply :: replies, table)

end SymbolTable

/-! ## Two lists -/

open SymbolTable (Reply)

/-- What is declared, in the order of the declarations. -/
structure Declared where
  ofClass : List Variable := []
  ofSubroutine : List Variable := []
  deriving DecidableEq, Repr

namespace Declared

/-- The variables of the scope that a storage belongs to. -/
def scope (declared : Declared) (storage : Storage) : List Variable :=
  if storage.isClassScope then declared.ofClass else declared.ofSubroutine

def add (declared : Declared) (v : Variable) : Declared :=
  if v.storage.isClassScope then { declared with ofClass := declared.ofClass ++ [v] }
  else { declared with ofSubroutine := declared.ofSubroutine ++ [v] }

/-- A name can be declared once in a scope, and is answered with the number of variables of the
storage there. -/
def call (declared : Declared) : SymbolTable.Call → Reply × Declared
  | .define name type storage =>
    if name ∈ (declared.scope storage).map (·.name) then
      (.failed (.duplicateDefinition name), declared)
    else
      (.defined ((declared.scope storage).countP (·.storage = storage)),
        declared.add ⟨name, type, storage⟩)
  | .startSubroutine => (.started, { declared with ofSubroutine := [] })

def calls (declared : Declared) : List SymbolTable.Call → List Reply × Declared
  | [] => ([], declared)
  | call :: more =>
    let (reply, declared) := declared.call call
    let (replies, declared) := declared.calls more
    (reply :: replies, declared)

/-- The table of the variables. -/
def table (declared : Declared) : SymbolTable :=
  ⟨(numbered declared.ofClass).map (·.declaration),
    (numbered declared.ofSubroutine).map (·.declaration)⟩

/-- Neither scope has more variables than 16 bits can count. -/
structure Bounded (declared : Declared) : Prop where
  ofClass : declared.ofClass.length ≤ 65535
  ofSubroutine : declared.ofSubroutine.length ≤ 65535

instance : DecidablePred Bounded := fun declared =>
  decidable_of_iff (declared.ofClass.length ≤ 65535 ∧ declared.ofSubroutine.length ≤ 65535)
    ⟨fun ⟨h, h'⟩ => ⟨h, h'⟩, fun h => ⟨h.ofClass, h.ofSubroutine⟩⟩

/-- No name is declared twice in a scope, and every variable is in the scope of its storage. -/
structure Valid (declared : Declared) : Prop where
  distinctInClass : (declared.ofClass.map (·.name)).Nodup
  distinctInSubroutine : (declared.ofSubroutine.map (·.name)).Nodup
  ofClass : ∀ v ∈ declared.ofClass, v.storage.isClassScope = true
  ofSubroutine : ∀ v ∈ declared.ofSubroutine, v.storage.isClassScope = false

theorem table_scope (declared : Declared) (storage : Storage) :
    declared.table.scope storage = (numbered (declared.scope storage)).map (·.declaration) := by
  unfold SymbolTable.scope scope table
  split <;> rfl

theorem table_count (declared : Declared) (storage : Storage) : declared.table.count storage =
    .ofNat ((declared.scope storage).countP (·.storage = storage)) := by
  rw [SymbolTable.count, table_scope, List.countP_map, numbered]
  exact congrArg UInt16.ofNat (numberedAfter_countP [] _ storage)

theorem Bounded.countP_le {declared : Declared} (h : declared.Bounded) (storage : Storage) :
    (declared.scope storage).countP (·.storage = storage) ≤ 65535 := by
  refine List.countP_le_length.trans ?_
  unfold scope
  split
  · exact h.ofClass
  · exact h.ofSubroutine

theorem Bounded.count_toNat {declared : Declared} (h : declared.Bounded) (storage : Storage) :
    (declared.table.count storage).toNat =
      (declared.scope storage).countP (·.storage = storage) := by
  rw [table_count]
  exact UInt16.toNat_ofNat_of_lt' (Nat.lt_succ_of_le (h.countP_le storage))

theorem table_define (declared : Declared) (name type : String) (storage : Storage) :
    declared.table.define name type storage =
      if name ∈ (declared.scope storage).map (·.name) then .error (.duplicateDefinition name)
      else .ok (declared.table.count storage, (declared.add ⟨name, type, storage⟩).table) := by
  have hname := Compile.any_numbered (declared.scope storage) name
  simp only [SymbolTable.define, table_scope, table_count, hname]
  refine if_congr Iff.rfl rfl ?_
  cases storage <;>
    simp [Storage.isClassScope, add, table, scope, numbered_append, numberedAfter, Slot.declaration]

/-- The table of the variables does on a call what the lists do. -/
theorem table_call {declared : Declared} (h : declared.Bounded) (call : SymbolTable.Call) :
    declared.table.call call = ((declared.call call).1, (declared.call call).2.table) := by
  cases call with
  | define name type storage =>
    unfold SymbolTable.call Declared.call
    dsimp only
    rw [table_define]
    by_cases hname : name ∈ (declared.scope storage).map (·.name)
    · rw [if_pos hname, if_pos hname]
    · rw [if_neg hname, if_neg hname]
      dsimp only
      rw [h.count_toNat]
  | startSubroutine => rfl

theorem Valid.add {declared : Declared} (h : declared.Valid) {v : Variable}
    (hnew : v.name ∉ (declared.scope v.storage).map (·.name)) : (declared.add v).Valid := by
  have hdistinct {vs : List Variable} (hvs : (vs.map (·.name)).Nodup)
      (hv : v.name ∉ vs.map (·.name)) : ((vs ++ [v]).map (·.name)).Nodup := by
    rw [List.map_append, List.map_singleton]
    exact List.nodup_append'.mpr
      ⟨hvs, List.nodup_singleton _, List.disjoint_singleton.mpr hv⟩
  unfold Declared.scope at hnew
  unfold Declared.add
  split
  · rename_i hscope
    rw [if_pos hscope] at hnew
    refine ⟨hdistinct h.distinctInClass hnew, h.distinctInSubroutine, ?_, h.ofSubroutine⟩
    exact List.forall_mem_append.mpr ⟨h.ofClass, List.forall_mem_singleton.mpr hscope⟩
  · rename_i hscope
    rw [if_neg hscope] at hnew
    refine ⟨h.distinctInClass, hdistinct h.distinctInSubroutine hnew, h.ofClass, ?_⟩
    refine List.forall_mem_append.mpr ⟨h.ofSubroutine, List.forall_mem_singleton.mpr ?_⟩
    exact Bool.eq_false_iff.mpr hscope

/-- A call leaves the names in a scope distinct and each variable in the scope of its storage. -/
theorem Valid.call {declared : Declared} (h : declared.Valid) (call : SymbolTable.Call) :
    (declared.call call).2.Valid := by
  cases call with
  | define name type storage =>
    unfold Declared.call
    dsimp only
    split
    · exact h
    · rename_i hnew
      exact h.add hnew
  | startSubroutine => exact ⟨h.distinctInClass, List.nodup_nil, h.ofClass, List.forall_mem_nil _⟩

theorem table_calls {declared : Declared} {calls : List SymbolTable.Call}
    (h : ∀ earlier ∈ calls.inits, (declared.calls earlier).2.Bounded) :
    declared.table.calls calls = ((declared.calls calls).1, (declared.calls calls).2.table) := by
  induction calls generalizing declared with
  | nil => rfl
  | cons call calls ih =>
    have hfirst : declared.Bounded := h [] (by simp)
    have hmore : ∀ earlier ∈ calls.inits, ((declared.call call).2.calls earlier).2.Bounded :=
      fun earlier hearlier => h (call :: earlier) (by simpa using hearlier)
    unfold SymbolTable.calls Declared.calls
    rw [table_call hfirst]
    dsimp only
    rw [ih hmore]

theorem Valid.calls {declared : Declared} (h : declared.Valid) (calls : List SymbolTable.Call) :
    (declared.calls calls).2.Valid := by
  induction calls generalizing declared with
  | nil => exact h
  | cons call calls ih => exact ih (h.call call)

/-! ## What the table tells -/

/-- All that a table tells of a name is what the variable of the name is. -/
structure Means (table : SymbolTable) (name : String) (slot : Slot) : Prop where
  lookup : table.lookup? name = some slot.declaration
  storage : table.storageOf? name = some slot.storage
  type : table.typeOf name = .ok slot.type
  index : (table.indexOf name).map (·.toNat) = .ok slot.index

/-- A table tells that a name is not defined. -/
structure Undefined (table : SymbolTable) (name : String) : Prop where
  lookup : table.lookup? name = none
  storage : table.storageOf? name = none
  type : table.typeOf name = .error (.undefinedSymbol name)
  index : table.indexOf name = .error (.undefinedSymbol name)

theorem means_of_lookup {table : SymbolTable} {name : String} {slot : Slot}
    (h : table.lookup? name = some slot.declaration) (hindex : slot.index ≤ 65535) :
    Means table name slot := by
  have hresolve : table.resolve name = .ok slot.declaration := by rw [SymbolTable.resolve, h]
  refine ⟨h, ?_, ?_, ?_⟩
  · rw [SymbolTable.storageOf?, h]
    rfl
  · rw [SymbolTable.typeOf, hresolve]
    rfl
  · rw [SymbolTable.indexOf, hresolve]
    exact congrArg Except.ok (UInt16.toNat_ofNat_of_lt' (Nat.lt_succ_of_le hindex))

theorem undefined_of_lookup {table : SymbolTable} {name : String}
    (h : table.lookup? name = none) : Undefined table name := by
  have hresolve : table.resolve name = .error (.undefinedSymbol name) := by
    rw [SymbolTable.resolve, h]
  refine ⟨h, ?_, ?_, ?_⟩
  · rw [SymbolTable.storageOf?, h]
    rfl
  · rw [SymbolTable.typeOf, hresolve]
    rfl
  · rw [SymbolTable.indexOf, hresolve]
    rfl

/-- What a table tells when these variables are declared: how many there are of a storage, that they
are numbered from 0 on in their order, and what each name means. -/
structure Describes (declared : Declared) (table : SymbolTable) : Prop where
  count : ∀ storage,
    (table.count storage).toNat = (declared.scope storage).countP (·.storage = storage)
  declarations : ∀ storage,
    (table.scope storage).map (fun d => ⟨d.name, d.type, d.storage⟩) = declared.scope storage
  indices : ∀ storage,
    ((table.scope storage).filter (·.storage = storage)).map (·.index.toNat) =
      List.range (table.count storage).toNat
  inSubroutine : ∀ before v after, declared.ofSubroutine = before ++ v :: after →
    Means table v.name ⟨v.name, v.type, v.storage, before.countP (·.storage = v.storage)⟩
  inClass : ∀ before v after, declared.ofClass = before ++ v :: after →
    v.name ∉ declared.ofSubroutine.map (·.name) →
    Means table v.name ⟨v.name, v.type, v.storage, before.countP (·.storage = v.storage)⟩
  undefined : ∀ name, name ∉ declared.ofSubroutine.map (·.name) →
    name ∉ declared.ofClass.map (·.name) → Undefined table name

theorem table_lookup? (declared : Declared) (name : String) : declared.table.lookup? name =
    (((numbered declared.ofSubroutine).find? (·.name = name)).or
      ((numbered declared.ofClass).find? (·.name = name))).map (·.declaration) := by
  rw [SymbolTable.lookup?, table, List.find?_map, List.find?_map, Option.map_or]
  rfl

/-- The name at some place of a list is not at an earlier place. -/
theorem new_of_nodup {before after : List Variable} {v : Variable}
    (h : ((before ++ v :: after).map (·.name)).Nodup) : v.name ∉ before.map (·.name) := by
  rw [List.map_append, List.map_cons, List.nodup_middle] at h
  exact fun hmem => (List.nodup_cons.mp h).1 (List.mem_append_left _ hmem)

theorem count_before_le {vs before after : List Variable} {v : Variable} {storage : Storage}
    {n : Nat} (h : vs = before ++ v :: after) (hvs : vs.length ≤ n) :
    before.countP (·.storage = storage) ≤ n := by
  rw [h, List.length_append] at hvs
  exact List.countP_le_length.trans ((Nat.le_add_right _ _).trans hvs)

theorem Valid.describes {declared : Declared} (h : declared.Valid) (hbounded : declared.Bounded) :
    declared.Describes declared.table where
  count := hbounded.count_toNat
  declarations storage := by
    rw [table_scope, List.map_map]
    exact numberedAfter_variables [] _
  indices storage := by
    have hindices := numbered_indices (declared.scope storage) storage
    have hfits : ∀ slot ∈ (numbered (declared.scope storage)).filter (·.storage = storage),
        slot.declaration.index.toNat = slot.index := by
      intro slot hslot
      have hindex : slot.index ∈ List.range _ := hindices ▸ List.mem_map_of_mem hslot
      refine UInt16.toNat_ofNat_of_lt' ((List.mem_range.mp hindex).trans_le ?_)
      exact (hbounded.countP_le storage).trans (Nat.le_succ _)
    rw [table_scope, List.filter_map, List.map_map, hbounded.count_toNat, ← hindices]
    exact List.map_congr_left hfits
  inSubroutine before v after hlist := by
    have hnew := new_of_nodup (hlist ▸ h.distinctInSubroutine)
    refine means_of_lookup ?_ ?_
    · rw [table_lookup?, hlist, find?_numbered hnew, Option.some_or, Option.map_some]
    · exact count_before_le hlist hbounded.ofSubroutine
  inClass before v after hlist hinner := by
    have hnew := new_of_nodup (hlist ▸ h.distinctInClass)
    refine means_of_lookup ?_ ?_
    · rw [table_lookup?, hlist, find?_numbered_none hinner, Option.none_or, find?_numbered hnew,
        Option.map_some]
    · exact count_before_le hlist hbounded.ofClass
  undefined name hinner houter := by
    refine undefined_of_lookup ?_
    rw [table_lookup?, find?_numbered_none hinner, Option.none_or, find?_numbered_none houter,
      Option.map_none]

end Declared

/-- Whatever is called on a new table, it replies as two lists of variables do, it is the table of
the variables in them, and it tells of them what the lists have: no two in a list have one name,
each is in the list of its storage and numbered there by those of its storage before it, and a name
means what it is declared as in the subroutine, or else in the class, or else nothing. At no time
may there be more than 65535 variables in a list. -/
theorem SymbolTable.table_follows (calls : List SymbolTable.Call)
    (hbounded : ∀ earlier ∈ calls.inits, (({} : Declared).calls earlier).2.Bounded) :
    (({} : SymbolTable).calls calls).1 = (({} : Declared).calls calls).1 ∧
      (({} : SymbolTable).calls calls).2 = (({} : Declared).calls calls).2.table ∧
      (({} : Declared).calls calls).2.Valid ∧
      (({} : Declared).calls calls).2.Describes (({} : SymbolTable).calls calls).2 := by
  have hvalid : ({} : Declared).Valid :=
    ⟨List.nodup_nil, List.nodup_nil, List.forall_mem_nil _, List.forall_mem_nil _⟩
  have htable := Declared.table_calls hbounded
  have hempty : ({} : Declared).table = {} := rfl
  rw [hempty] at htable
  rw [htable]
  have hlast := hbounded calls ((List.mem_inits _ _).mpr List.prefix_rfl)
  exact ⟨rfl, rfl, hvalid.calls calls, (hvalid.calls calls).describes hlast⟩

/-- A field and an argument of one name, and one declared again. -/
def someCalls : List SymbolTable.Call :=
  [.define "x" "int" .field, .define "x" "int" .static, .startSubroutine, .define "x" "A" .argument]

theorem someCalls_follow :
    (∀ earlier ∈ someCalls.inits, (({} : Declared).calls earlier).2.Bounded) ∧
      (({} : SymbolTable).calls someCalls).1 =
        [.defined 0, .failed (.duplicateDefinition "x"), .started, .defined 0] ∧
      (({} : Declared).calls someCalls).2.Describes (({} : SymbolTable).calls someCalls).2 := by
  have hbounded : ∀ earlier ∈ someCalls.inits, (({} : Declared).calls earlier).2.Bounded := by
    decide
  obtain ⟨hreplies, -, -, hdescribes⟩ := SymbolTable.table_follows someCalls hbounded
  exact ⟨hbounded, hreplies, hdescribes⟩

end JackCompiler
