import Mathlib.Data.List.Nodup
import NetEngine.Lib.Dictionary
import NetEngine.Lib.Machine

/-!
# IntHashPool

The pools of TLoop.cs.  `TDicPool` keeps a stack of free objects for each name;
`IntHashPool` uses one of them under the name 0, numbers the objects it hands
out, and finds an object by its number and the number by the object.

Objects are compared by reference, so a type with equality stands for the
references.  A dictionary that is not made yet is `none`.

The numbers wrap.  `BackObj` takes a negative number for none, and `GetObj`
throws on a number that is still in use, so the pool stays consistent exactly as
long as neither comes up.  With a size that is not negative neither does in the
first 2147483647 calls of `GetObj`.
-/

namespace NetEngine
namespace Unity

structure TDicPool (U T : Type) where
  defaultSize : Int32
  dloopDic : Dictionary U (List T) := Dictionary.empty

namespace TDicPool

variable {U T : Type} [DecidableEq U] [DecidableEq T]

/-- The stack of a name, empty when there is none. -/
def stack (p : TDicPool U T) (objName : U) : List T :=
  (p.dloopDic objName).getD []

/-- `fresh` is what `new T()` gives if it is called. -/
def getObj (p : TDicPool U T) (objName : U) (fresh : T) :
    T × TDicPool U T :=
  match p.dloopDic objName with
  | none => (fresh, p)
  | some [] => (fresh, p)
  | some (obj :: stack) =>
      (obj, { p with
        dloopDic := Function.update p.dloopDic objName (some stack) })

/-- Nothing when the size of a new stack is negative. -/
def stackFor (p : TDicPool U T) (objName : U) : Option (List T) :=
  match p.dloopDic objName with
  | none => if p.defaultSize < 0 then none else some []
  | some stack => some stack

def backObj (p : TDicPool U T) (objName : U) (obj : T) :
    Option (TDicPool U T) :=
  (p.stackFor objName).map fun stack =>
    let pushed := if obj ∈ stack then stack else obj :: stack
    { p with dloopDic := Function.update p.dloopDic objName (some pushed) }

end TDicPool

structure IntHashPool (T : Type) where
  pool : Option (TDicPool Int32 T) := none
  curUseList : Option (Dictionary Int32 T) := none
  idTable : Option (Dictionary T Int32) := none
  runNumber : Int32 := 1
  size : Int32

inductive HashPoolEvent (T : Type) where
  /-- `GetObj()`, and what `new T()` gives if it is called. -/
  | getObj (fresh : T)
  | backObj (obj : T)

inductive HashPoolObservation (T : Type) where
  /-- `GetObj()` returned. -/
  | got (obj : T)
  | getThrew
  /-- `BackObj(obj)` returned. -/
  | backed (obj : T)
  | backThrew (obj : T)

namespace IntHashPool

variable {T : Type} [DecidableEq T]

/-- The property `Pool`. -/
def thePool (s : IntHashPool T) : TDicPool Int32 T :=
  s.pool.getD { defaultSize := s.size }

/-- The tables are made by the first `GetObj`, which throws on a negative size. -/
def withTables (s : IntHashPool T) : Option (IntHashPool T) :=
  if s.curUseList.isSome then some s
  else if s.size < 0 then none
  else
    some { s with
      curUseList := some Dictionary.empty
      idTable := some Dictionary.empty }

def nextNumber (runNumber : Int32) : Int32 :=
  if runNumber + 1 = -1 then 1 else runNumber + 1

/-- Nothing without a table, or when the table has the key. -/
def tableAdd {κ ν : Type} [DecidableEq κ] (d : Option (Dictionary κ ν))
    (k : κ) (v : ν) : Option (Dictionary κ ν) :=
  d.bind fun d => d.add k v

/-- The part of `GetObj` behind the pool. -/
def register (s : IntHashPool T) (obj : T) :
    IntHashPool T × List (HashPoolObservation T) :=
  match s.withTables with
  | none => (s, [.getThrew])
  | some s =>
      match tableAdd s.curUseList s.runNumber obj with
      | none => (s, [.getThrew])
      | some useList =>
          let s := { s with curUseList := some useList }
          match tableAdd s.idTable obj s.runNumber with
          | none => (s, [.getThrew])
          | some ids =>
              ({ s with
                  idTable := some ids, runNumber := nextNumber s.runNumber },
                [.got obj])

def getObj (s : IntHashPool T) (fresh : T) :
    IntHashPool T × List (HashPoolObservation T) :=
  let r := s.thePool.getObj 0 fresh
  { s with pool := some r.2 }.register r.1

/-- `GetObjByID`; nothing when there is no table to look in. -/
def getObjByID (s : IntHashPool T) (id : Int32) : Option (Option T) :=
  s.curUseList.map fun d => d id

/-- `GetIDByObj`; nothing when there is no table to look in. -/
def getIDByObj (s : IntHashPool T) (obj : T) : Option Int32 :=
  s.idTable.map fun d => (d obj).getD (-1)

/-- The part of `BackObj` behind the pool. -/
def unregister (s : IntHashPool T) (obj : T) : IntHashPool T :=
  match s.curUseList, s.idTable, s.getIDByObj obj with
  | some useList, some ids, some id =>
      if id ≥ 0 then
        { s with
          curUseList := some (useList.remove id)
          idTable := some (ids.remove obj) }
      else s
  | _, _, _ => s

def backObj (s : IntHashPool T) (obj : T) :
    IntHashPool T × List (HashPoolObservation T) :=
  match s.thePool.backObj 0 obj with
  | none => ({ s with pool := some s.thePool }, [.backThrew obj])
  | some p => ({ s with pool := some p }.unregister obj, [.backed obj])

def step (s : IntHashPool T) :
    HashPoolEvent T → IntHashPool T × List (HashPoolObservation T)
  | .getObj fresh => s.getObj fresh
  | .backObj obj => s.backObj obj

/-- A run of `new IntHashPool<T>(Size)`. -/
def run (size : Int32) (events : List (HashPoolEvent T)) :
    IntHashPool T × List (HashPoolObservation T) :=
  Machine.run step { size := size } events

/-- `m_CurUseList`, empty before it is made. -/
def useList (s : IntHashPool T) : Dictionary Int32 T :=
  s.curUseList.getD Dictionary.empty

/-- `m_T_ID_HashTable`, empty before it is made. -/
def ids (s : IntHashPool T) : Dictionary T Int32 :=
  s.idTable.getD Dictionary.empty

/-- The free stack, top first. -/
def freeStack (s : IntHashPool T) : List T :=
  s.thePool.stack 0

end IntHashPool

section Outstanding

variable {T : Type} [DecidableEq T]

/-- Objects out after one more observation. -/
def HashPoolObservation.apply (out : List T) :
    HashPoolObservation T → List T
  | .got obj => obj :: out
  | .backed obj => out.filter (fun x => x ≠ obj)
  | .getThrew | .backThrew _ => out

/-- Objects that `GetObj` returned and that have not been given back since. -/
def outstanding (tr : List (HashPoolObservation T)) : List T :=
  tr.foldl HashPoolObservation.apply []

theorem outstanding_concat
    (tr : List (HashPoolObservation T)) (o : HashPoolObservation T) :
    outstanding (tr ++ [o]) = o.apply (outstanding tr) :=
  List.foldl_append

theorem mem_outstanding_got
    {tr : List (HashPoolObservation T)} {obj x : T} :
    x ∈ outstanding (tr ++ [.got obj]) ↔ x = obj ∨ x ∈ outstanding tr := by
  rw [outstanding_concat]
  exact List.mem_cons

theorem mem_outstanding_backed
    {tr : List (HashPoolObservation T)} {obj x : T} :
    x ∈ outstanding (tr ++ [.backed obj]) ↔ x ≠ obj ∧ x ∈ outstanding tr := by
  rw [outstanding_concat, HashPoolObservation.apply, List.mem_filter,
    decide_eq_true_iff]
  exact and_comm

/-- What `GetObj` returns is not out already. -/
def NotOut (tr : List (HashPoolObservation T)) :
    HashPoolObservation T → Prop
  | .got obj => obj ∉ outstanding tr
  | .getThrew | .backed _ | .backThrew _ => True

end Outstanding

section Consistency

variable {T : Type} [DecidableEq T]

/-- `new T()`, called when no object is free, gives one that is not out. -/
def IntHashPool.NewObject (s : IntHashPool T)
    (tr : List (HashPoolObservation T)) : HashPoolEvent T → Prop
  | .getObj fresh => s.freeStack = [] → fresh ∉ outstanding tr
  | .backObj _ => True

instance (s : IntHashPool T) (tr : List (HashPoolObservation T))
    (e : HashPoolEvent T) : Decidable (s.NewObject tr e) :=
  match e with
  | .getObj _ => inferInstanceAs (Decidable (_ = [] → _ ∉ outstanding tr))
  | .backObj _ => inferInstanceAs (Decidable True)

/--
The tables are inverse to each other, no object in use is free, no `GetObj`
threw or returned an object that was out, and only objects that are out are
found by their number.
-/
structure IntHashPool.Consistent (s : IntHashPool T)
    (tr : List (HashPoolObservation T)) : Prop where
  inverse : ∀ id obj, s.useList id = some obj ↔ s.ids obj = some id
  free : ∀ obj ∈ s.freeStack,
    obj ∉ outstanding tr ∧ ∀ id, s.useList id ≠ some obj
  quiet : .getThrew ∉ tr
  notOut : Machine.Traced NotOut tr
  found : ∀ id obj, s.getObjByID id = some (some obj) → obj ∈ outstanding tr

/--
The size is not negative and `m_RunNumber` is not in use when an object is
handed out, and an object in use that is given back has a number that is not
negative.
-/
def IntHashPool.NumberUsable (s : IntHashPool T)
    (_ : List (HashPoolObservation T)) : HashPoolEvent T → Prop
  | .getObj _ => 0 ≤ s.size ∧ s.useList s.runNumber = none
  | .backObj obj => ∀ id, s.ids obj = some id → 0 ≤ id

instance (s : IntHashPool T) (tr : List (HashPoolObservation T))
    (e : HashPoolEvent T) : Decidable (s.NumberUsable tr e) :=
  match e with
  | .getObj _ => inferInstanceAs (Decidable (0 ≤ s.size ∧ _ = none))
  | .backObj obj =>
      decidable_of_iff ((s.ids obj).all (fun id => 0 ≤ id)) (by
        simp only [Option.all_eq_true, decide_eq_true_iff,
          IntHashPool.NumberUsable])

end Consistency

section Pools

variable {U T : Type} [DecidableEq U]

namespace TDicPool

/-- An object from the stack, or a new one when there is none. -/
theorem getObj_spec (p : TDicPool U T) (objName : U) (fresh : T) :
    (p.getObj objName fresh).2.defaultSize = p.defaultSize ∧
      (p.stack objName = [] ∧ (p.getObj objName fresh).1 = fresh ∧
          (p.getObj objName fresh).2.stack objName = [] ∨
        p.stack objName = (p.getObj objName fresh).1 ::
          (p.getObj objName fresh).2.stack objName) := by
  cases hdic : p.dloopDic objName with
  | none =>
      simp [getObj, stack, hdic]
  | some objs =>
      cases objs with
      | nil =>
          simp [getObj, stack, hdic]
      | cons obj objs =>
          simp [getObj, stack, hdic]

variable [DecidableEq T]

theorem backObj_spec
    {p p' : TDicPool U T} {objName : U} {obj : T}
    (h : p.backObj objName obj = some p') :
    p'.defaultSize = p.defaultSize ∧
      p'.stack objName = (p.stack objName).insert obj := by
  have hpushed : ∀ objs : List T,
      (if obj ∈ objs then objs else obj :: objs) = objs.insert obj := by
    intro objs
    simp [List.insert]
  cases hdic : p.dloopDic objName with
  | none =>
      simp only [backObj, stackFor, hdic] at h
      split_ifs at h with hsize
      · cases h
      · cases h
        simp [stack, hdic]
  | some objs =>
      simp only [backObj, stackFor, hdic, Option.map_some] at h
      cases h
      simp [stack, hdic, hpushed]

theorem backObj_isSome
    {p : TDicPool U T} (hsize : 0 ≤ p.defaultSize) (objName : U) (obj : T) :
    ∃ p', p.backObj objName obj = some p' := by
  cases hdic : p.dloopDic objName with
  | none =>
      simp [backObj, stackFor, hdic, Int32.not_lt.mpr hsize]
  | some objs =>
      simp [backObj, stackFor, hdic]

end TDicPool

end Pools

section Invariant

variable {T : Type} [DecidableEq T] {s : IntHashPool T}
variable {tr : List (HashPoolObservation T)}

/-- What every run in which the numbers are usable preserves. -/
structure HashPoolInv (s : IntHashPool T)
    (tr : List (HashPoolObservation T)) : Prop where
  inverse : s.useList.Inverse s.ids
  made : s.curUseList.isSome = s.idTable.isSome
  sized : s.curUseList.isSome → 0 ≤ s.size
  poolSized : s.thePool.defaultSize = s.size
  nodup : s.freeStack.Nodup
  free : ∀ obj ∈ s.freeStack, s.ids obj = none
  out : ∀ obj, obj ∈ outstanding tr ↔ s.ids obj ≠ none
  quiet : .getThrew ∉ tr
  notOut : Machine.Traced NotOut tr

theorem hashPoolInv_init (size : Int32) :
    HashPoolInv ({ size := size } : IntHashPool T) [] where
  inverse := Dictionary.Inverse.of_empty
  made := rfl
  sized := fun h => nomatch h
  poolSized := rfl
  nodup := List.nodup_nil
  free := fun _ hobj => absurd hobj List.not_mem_nil
  out := fun _ => ⟨fun hobj => absurd hobj List.not_mem_nil,
    fun h => absurd rfl h⟩
  quiet := List.not_mem_nil
  notOut := Machine.Traced.nil _

theorem HashPoolInv.not_out
    (h : HashPoolInv s tr) {obj : T} (hobj : s.ids obj = none) :
    obj ∉ outstanding tr :=
  fun hout => (h.out obj).mp hout hobj

theorem HashPoolInv.consistent (h : HashPoolInv s tr) :
    s.Consistent tr where
  inverse := h.inverse
  free := by
    intro obj hobj
    have hids : s.ids obj = none := h.free obj hobj
    exact ⟨h.not_out hids, h.inverse.symm.ne_of_none hids⟩
  quiet := h.quiet
  notOut := h.notOut
  found := by
    intro id obj hfound
    obtain ⟨d, hd, hdid⟩ := Option.map_eq_some_iff.mp hfound
    have huse : s.useList id = some obj := by
      rw [IntHashPool.useList, hd]
      exact hdid
    rw [h.out, (h.inverse id obj).mp huse]
    exact Option.some_ne_none id

namespace IntHashPool

omit [DecidableEq T] in
/-- What is in the table of objects is there after it is made. -/
theorem isSome_of_useList {id : Int32} {obj : T}
    (h : s.useList id = some obj) : s.curUseList.isSome := by
  cases huses : s.curUseList with
  | none =>
      rw [useList, huses] at h
      cases h
  | some uses =>
      rfl

omit [DecidableEq T] in
theorem withTables_eq
    (hsize : 0 ≤ s.size) (hmade : s.curUseList.isSome = s.idTable.isSome) :
    s.withTables =
      some { s with curUseList := some s.useList, idTable := some s.ids } := by
  obtain ⟨pool, curUseList, idTable, runNumber, size⟩ := s
  cases curUseList with
  | none =>
      cases idTable with
      | none =>
          exact if_neg (Int32.not_lt.mpr hsize)
      | some d =>
          cases hmade
  | some uses =>
      cases idTable with
      | none =>
          cases hmade
      | some d =>
          rfl

/-- An object and its number, both new to the tables. -/
theorem register_eq
    (hsize : 0 ≤ s.size) (hmade : s.curUseList.isSome = s.idTable.isSome)
    (hnumber : s.useList s.runNumber = none) {obj : T}
    (hobj : s.ids obj = none) :
    s.register obj =
      ({ s with
          curUseList := some
            (Function.update s.useList s.runNumber (some obj))
          idTable := some
            (Function.update s.ids obj (some s.runNumber))
          runNumber := nextNumber s.runNumber },
        [.got obj]) := by
  simp only [register, withTables_eq hsize hmade, tableAdd, Option.bind_some,
    Dictionary.add_of_none hnumber, Dictionary.add_of_none hobj]

/-- Without a size or a number to use `GetObj` throws. -/
theorem register_throws
    (hsized : s.curUseList.isSome → 0 ≤ s.size)
    (h : ¬ (0 ≤ s.size ∧ s.useList s.runNumber = none)) (obj : T) :
    (s.register obj).2 = [.getThrew] := by
  obtain ⟨pool, curUseList, idTable, runNumber, size⟩ := s
  cases curUseList with
  | none =>
      have hsize : size < 0 := by
        by_contra hsize
        exact h ⟨Int32.not_lt.mp hsize, rfl⟩
      simp [register, withTables, hsize]
  | some uses =>
      have hnumber : uses runNumber ≠ none :=
        fun hnone => h ⟨hsized rfl, hnone⟩
      simp [register, withTables, tableAdd,
        Dictionary.add_of_ne_none hnumber]

end IntHashPool

omit [DecidableEq T] in
theorem quiet_concat
    {o : HashPoolObservation T} (h : .getThrew ∉ tr) (ho : o ≠ .getThrew) :
    .getThrew ∉ tr ++ [o] := by
  rw [List.mem_append, List.mem_singleton]
  exact fun hin => hin.elim h (fun heq => ho heq.symm)

/-- `GetObj` takes an object without a number and gives it `m_RunNumber`. -/
theorem HashPoolInv.getObj_eq
    (h : HashPoolInv s tr) {fresh : T}
    (hnew : s.freeStack = [] → fresh ∉ outstanding tr)
    (husable : 0 ≤ s.size ∧ s.useList s.runNumber = none) :
    ∃ (obj : T) (p : TDicPool Int32 T),
      s.getObj fresh =
        ({ s with
            pool := some p
            curUseList := some
              (Function.update s.useList s.runNumber (some obj))
            idTable := some
              (Function.update s.ids obj (some s.runNumber))
            runNumber := IntHashPool.nextNumber s.runNumber },
          [.got obj]) ∧
        s.ids obj = none ∧ p.defaultSize = s.size ∧
        (obj :: p.stack 0).Nodup ∧ ∀ x ∈ p.stack 0, s.ids x = none := by
  obtain ⟨hpool, hstack⟩ := s.thePool.getObj_spec 0 fresh
  generalize hr : s.thePool.getObj 0 fresh = r at hpool hstack
  obtain ⟨obj, p⟩ := r
  have hobj : s.ids obj = none := by
    rcases hstack with ⟨hnil, rfl, -⟩ | hstack
    · by_contra hne
      exact hnew hnil ((h.out _).mpr hne)
    · refine h.free obj ?_
      rw [IntHashPool.freeStack, hstack]
      exact List.mem_cons_self
  refine ⟨obj, p, ?_, hobj, hpool.trans h.poolSized, ?_, ?_⟩
  · rw [IntHashPool.getObj, hr]
    exact IntHashPool.register_eq (s := { s with pool := some p })
      husable.1 h.made husable.2 hobj
  · rcases hstack with ⟨-, -, hnil⟩ | hstack
    · rw [hnil]
      exact List.nodup_cons.mpr ⟨List.not_mem_nil, List.nodup_nil⟩
    · exact hstack ▸ h.nodup
  · intro x hx
    refine h.free x ?_
    rcases hstack with ⟨-, -, hnil⟩ | hstack
    · rw [hnil] at hx
      exact absurd hx List.not_mem_nil
    · rw [IntHashPool.freeStack, hstack]
      exact List.mem_cons_of_mem _ hx

theorem HashPoolInv.getObj
    (h : HashPoolInv s tr) {fresh : T}
    (hnew : s.freeStack = [] → fresh ∉ outstanding tr)
    (husable : 0 ≤ s.size ∧ s.useList s.runNumber = none) :
    HashPoolInv (s.getObj fresh).1 (tr ++ (s.getObj fresh).2) := by
  obtain ⟨obj, p, heq, hobj, hpool, hnodup, hfree⟩ :=
    h.getObj_eq hnew husable
  rw [heq]
  exact
    { inverse := h.inverse.add husable.2 hobj
      made := rfl
      sized := fun _ => husable.1
      poolSized := hpool
      nodup := hnodup.of_cons
      free := by
        intro x hx
        have hne : x ≠ obj := by
          rintro rfl
          exact (List.nodup_cons.mp hnodup).1 hx
        exact (Function.update_of_ne hne _ _).trans (hfree x hx)
      out := by
        intro x
        rw [mem_outstanding_got, h.out x]
        exact Dictionary.update_ne_none.symm
      quiet := quiet_concat h.quiet (by simp)
      notOut := h.notOut.concat (h.not_out hobj) }

theorem HashPoolInv.getObj_throws
    (h : HashPoolInv s tr) (fresh : T)
    (husable : ¬ (0 ≤ s.size ∧ s.useList s.runNumber = none)) :
    ¬ (s.getObj fresh).1.Consistent (tr ++ (s.getObj fresh).2) := by
  intro hcons
  refine hcons.quiet ?_
  rw [IntHashPool.getObj, IntHashPool.register_throws (s := { s with
    pool := some (s.thePool.getObj 0 fresh).2 }) h.sized husable]
  exact List.mem_append_right _ List.mem_cons_self

namespace IntHashPool

/-- An object without a number changes nothing. -/
theorem unregister_none {obj : T} (hobj : s.ids obj = none) :
    s.unregister obj = s := by
  obtain ⟨pool, curUseList, idTable, runNumber, size⟩ := s
  cases curUseList with
  | none =>
      rfl
  | some uses =>
      cases idTable with
      | none =>
          rfl
      | some d =>
          have hd : d obj = none := hobj
          simp [unregister, getIDByObj, hd]

/-- The pair goes from both tables when the number is not negative. -/
theorem unregister_some
    (hmade : s.curUseList.isSome = s.idTable.isSome) {obj : T} {id : Int32}
    (hobj : s.ids obj = some id) :
    s.unregister obj =
      if 0 ≤ id then
        { s with
          curUseList := some (s.useList.remove id)
          idTable := some (s.ids.remove obj) }
      else s := by
  obtain ⟨pool, curUseList, idTable, runNumber, size⟩ := s
  cases curUseList with
  | none =>
      cases idTable with
      | none =>
          cases hobj
      | some d =>
          cases hmade
  | some uses =>
      cases idTable with
      | none =>
          cases hmade
      | some d =>
          have hd : d obj = some id := hobj
          simp [unregister, getIDByObj, useList, ids, hd]

end IntHashPool

/-- An object that is back in the pool, without a number. -/
theorem HashPoolInv.returned
    (h : HashPoolInv s tr) {s' : IntHashPool T} {obj : T}
    (hids : s'.ids = s.ids.remove obj)
    (hinverse : s'.useList.Inverse s'.ids)
    (hmade : s'.curUseList.isSome = s'.idTable.isSome)
    (hsized : s'.curUseList.isSome → 0 ≤ s'.size)
    (hpool : s'.thePool.defaultSize = s'.size)
    (hstack : s'.freeStack = s.freeStack.insert obj) :
    HashPoolInv s' (tr ++ [.backed obj]) where
  inverse := hinverse
  made := hmade
  sized := hsized
  poolSized := hpool
  nodup := by
    rw [hstack]
    exact List.Nodup.insert h.nodup
  free := by
    intro x hx
    rw [hstack, List.mem_insert_iff] at hx
    by_contra hids'
    rw [hids] at hids'
    obtain ⟨hne, hold⟩ := Dictionary.remove_ne_none.mp hids'
    exact hold (h.free x (hx.resolve_left hne))
  out := by
    intro x
    rw [mem_outstanding_backed, h.out x, hids]
    exact Dictionary.remove_ne_none.symm
  quiet := quiet_concat h.quiet (by simp)
  notOut := h.notOut.concat trivial

/-- The size of the stack's pool was negative. -/
theorem HashPoolInv.backThrew (h : HashPoolInv s tr) (obj : T) :
    HashPoolInv { s with pool := some s.thePool }
      (tr ++ [.backThrew obj]) where
  inverse := h.inverse
  made := h.made
  sized := h.sized
  poolSized := h.poolSized
  nodup := h.nodup
  free := h.free
  out := fun x => by
    rw [outstanding_concat]
    exact h.out x
  quiet := quiet_concat h.quiet (by simp)
  notOut := h.notOut.concat trivial

theorem HashPoolInv.backObj
    (h : HashPoolInv s tr) {obj : T}
    (husable : ∀ id, s.ids obj = some id → 0 ≤ id) :
    HashPoolInv (s.backObj obj).1 (tr ++ (s.backObj obj).2) := by
  cases hback : s.thePool.backObj 0 obj with
  | none =>
      simp only [IntHashPool.backObj, hback]
      exact h.backThrew obj
  | some p =>
      obtain ⟨hsize, hstack⟩ := TDicPool.backObj_spec hback
      simp only [IntHashPool.backObj, hback]
      let s' : IntHashPool T := { s with pool := some p }
      have hmade : s'.curUseList.isSome = s'.idTable.isSome := h.made
      cases hobj : s'.ids obj with
      | none =>
          have hids : s.ids.remove obj = s.ids :=
            Function.update_eq_self_iff.mpr hobj.symm
          rw [IntHashPool.unregister_none hobj]
          exact h.returned hids.symm h.inverse h.made h.sized
            (hsize.trans h.poolSized) hstack
      | some id =>
          have huse : s.useList id = some obj := (h.inverse id obj).mpr hobj
          rw [IntHashPool.unregister_some hmade hobj,
            if_pos (husable id hobj)]
          have hsized := h.sized (IntHashPool.isSome_of_useList huse)
          exact h.returned rfl (h.inverse.remove huse) rfl
            (fun _ => hsized) (hsize.trans h.poolSized) hstack

/-- A negative number stays in the tables while its object is free. -/
theorem HashPoolInv.backObj_keeps
    (h : HashPoolInv s tr) {obj : T}
    (husable : ¬ ∀ id, s.ids obj = some id → 0 ≤ id) :
    ¬ (s.backObj obj).1.Consistent (tr ++ (s.backObj obj).2) := by
  push Not at husable
  obtain ⟨id, hobj, hid⟩ := husable
  have huse : s.useList id = some obj := (h.inverse id obj).mpr hobj
  have hsized : 0 ≤ s.thePool.defaultSize := by
    rw [h.poolSized]
    exact h.sized (IntHashPool.isSome_of_useList huse)
  obtain ⟨p, hback⟩ := TDicPool.backObj_isSome hsized 0 obj
  have hstack := (TDicPool.backObj_spec hback).2
  have hkept : ({ s with pool := some p } : IntHashPool T).unregister obj =
      { s with pool := some p } := by
    rw [IntHashPool.unregister_some (s := { s with pool := some p })
      h.made hobj, if_neg hid]
  intro hcons
  simp only [IntHashPool.backObj, hback, hkept] at hcons
  refine (hcons.free obj ?_).2 id huse
  show obj ∈ p.stack 0
  rw [hstack]
  exact List.mem_insert_self

end Invariant

section Runs

variable {T : Type} [DecidableEq T] {size : Int32}
variable {events : List (HashPoolEvent T)}

/-- A step with a usable number, and with a new object where one is needed. -/
theorem HashPoolInv.step
    {s : IntHashPool T} {tr : List (HashPoolObservation T)}
    {e : HashPoolEvent T} (h : s.NewObject tr e ∧ s.NumberUsable tr e)
    (hinv : HashPoolInv s tr) :
    HashPoolInv (s.step e).1 (tr ++ (s.step e).2) := by
  cases e with
  | getObj fresh =>
      exact hinv.getObj h.1 h.2
  | backObj obj =>
      exact hinv.backObj h.2

/--
Every call keeps the pool consistent exactly when each finds a number that it
can use.
-/
theorem intHashPool_consistent_iff
    (hnew : Machine.Along IntHashPool.step IntHashPool.NewObject
      { size := size } events) :
    (∀ before, before <+: events →
      (IntHashPool.run size before).1.Consistent
        (IntHashPool.run size before).2) ↔
    Machine.Along IntHashPool.step IntHashPool.NumberUsable
      { size := size } events := by
  refine Machine.forall_prefix_iff_along_of_invariant (I := HashPoolInv)
    (hashPoolInv_init size) ?_ ?_ ?_ hnew
  · intro s tr e h hinv
    exact hinv.step h
  · intro s tr hinv
    exact hinv.consistent
  · intro s tr e hinv husable
    cases e with
    | getObj fresh =>
        exact hinv.getObj_throws fresh husable
    | backObj obj =>
        exact hinv.backObj_keeps husable

/-- Two objects are out at once, and one of another origin joins the pool. -/
theorem intHashPool_consistent_three :
    (IntHashPool.run 10
      [.getObj 0, .getObj 1, .backObj 0, .backObj 7, .getObj 2,
        .backObj 1]).1.Consistent
    (IntHashPool.run 10
      [.getObj 0, .getObj 1, .backObj 0, .backObj 7, .getObj 2,
        .backObj 1]).2 :=
  (intHashPool_consistent_iff (by decide)).mpr (by decide) _
    (List.prefix_refl _)

end Runs

section Numbers

variable {T : Type} [DecidableEq T] {size : Int32}
variable {events : List (HashPoolEvent T)}

/-- Calls of `GetObj`. -/
def getObjCalls (events : List (HashPoolEvent T)) : Nat :=
  events.countP fun
    | .getObj _ => true
    | .backObj _ => false

theorem nextNumber_toInt {r : Int32} {n : Nat}
    (hr : r.toInt = n) (hn : n < 2147483647) :
    (IntHashPool.nextNumber r).toInt = (n + 1 : Nat) := by
  have hadd : (r + 1).toInt = (n + 1 : Nat) := by
    rw [Int32.toInt_add, hr]
    show ((n : Int) + 1).bmod 4294967296 = _
    rw [Int.bmod_eq_of_le (by omega) (by omega)]
    rfl
  have hne : r + 1 ≠ -1 := by
    intro heq
    rw [heq] at hadd
    have hneg : (-1 : Int32).toInt = -1 := rfl
    omega
  rw [IntHashPool.nextNumber, if_neg hne]
  exact hadd

theorem IntHashPool.unregister_frame (s : IntHashPool T) (obj : T) :
    (s.unregister obj).runNumber = s.runNumber ∧
      (s.unregister obj).size = s.size ∧
      ∀ id x, (s.unregister obj).useList id = some x →
        s.useList id = some x := by
  obtain ⟨pool, curUseList, idTable, runNumber, size⟩ := s
  cases curUseList with
  | none =>
      exact ⟨rfl, rfl, fun _ _ h => h⟩
  | some uses =>
      cases idTable with
      | none =>
          exact ⟨rfl, rfl, fun _ _ h => h⟩
      | some d =>
          simp only [unregister, getIDByObj, Option.map_some]
          split_ifs
          · exact ⟨rfl, rfl, fun _ _ h => Dictionary.of_remove h⟩
          · exact ⟨rfl, rfl, fun _ _ h => h⟩

/-- Giving an object back gives no number to anything. -/
theorem IntHashPool.backObj_frame (s : IntHashPool T) (obj : T) :
    (s.backObj obj).1.runNumber = s.runNumber ∧
      (s.backObj obj).1.size = s.size ∧
      ∀ id x, (s.backObj obj).1.useList id = some x →
        s.useList id = some x := by
  cases hback : s.thePool.backObj 0 obj with
  | none =>
      rw [backObj, hback]
      exact ⟨rfl, rfl, fun _ _ h => h⟩
  | some p =>
      rw [backObj, hback]
      exact unregister_frame { s with pool := some p } obj

/-- With few calls of `GetObj` the numbers have not wrapped yet. -/
structure FewNumbers (size : Int32) (calls : Nat) (s : IntHashPool T) :
    Prop where
  size_eq : s.size = size
  runNumber : calls < 2147483647 → s.runNumber.toInt = (calls + 1 : Nat)
  used : ∀ id x, s.useList id = some x → 0 < id.toInt ∧ id.toInt ≤ calls

theorem FewNumbers.usable
    {s : IntHashPool T} {tr : List (HashPoolObservation T)} {calls : Nat}
    (h : FewNumbers size calls s) (hinv : HashPoolInv s tr)
    (hsize : 0 ≤ size) {e : HashPoolEvent T}
    (hfew : calls + getObjCalls [e] < 2147483648) :
    s.NumberUsable tr e := by
  cases e with
  | getObj fresh =>
      have hcalls : calls + 1 < 2147483648 := hfew
      refine ⟨h.size_eq ▸ hsize, ?_⟩
      by_contra hne
      obtain ⟨x, hx⟩ := Option.ne_none_iff_exists'.mp hne
      have hle := (h.used _ x hx).2
      rw [h.runNumber (by omega)] at hle
      omega
  | backObj obj =>
      intro id hid
      have hpos := (h.used id obj ((hinv.inverse id obj).mpr hid)).1
      exact Int32.le_iff_toInt_le.mpr (Int.le_of_lt hpos)

theorem FewNumbers.step
    {s : IntHashPool T} {tr : List (HashPoolObservation T)} {calls : Nat}
    (h : FewNumbers size calls s) (hinv : HashPoolInv s tr)
    {e : HashPoolEvent T}
    (hguard : s.NewObject tr e ∧ s.NumberUsable tr e)
    (hfew : calls + getObjCalls [e] < 2147483648) :
    FewNumbers size (calls + getObjCalls [e]) (s.step e).1 := by
  cases e with
  | getObj fresh =>
      have hcalls : calls < 2147483647 := Nat.lt_of_succ_lt_succ hfew
      have hnumber := h.runNumber hcalls
      obtain ⟨obj, p, heq, -⟩ := hinv.getObj_eq hguard.1 hguard.2
      rw [IntHashPool.step, heq]
      refine ⟨h.size_eq, fun hlt => nextNumber_toInt hnumber hlt, ?_⟩
      intro id x hx
      show 0 < id.toInt ∧ id.toInt ≤ (calls + 1 : Nat)
      rcases eq_or_ne id s.runNumber with rfl | hne
      · rw [hnumber]
        omega
      · have hold : s.useList id = some x :=
          (Function.update_of_ne hne _ _).symm.trans hx
        have hused := h.used id x hold
        omega
  | backObj obj =>
      obtain ⟨hrunNumber, hsame, huses⟩ := s.backObj_frame obj
      refine ⟨hsame.trans h.size_eq, ?_, fun id x hx =>
        h.used id x (huses id x hx)⟩
      intro hlt
      exact (congrArg Int32.toInt hrunNumber).trans (h.runNumber hlt)

theorem run_fewNumbers
    (hsize : 0 ≤ size)
    (hnew : Machine.Along IntHashPool.step IntHashPool.NewObject
      { size := size } events)
    (hfew : getObjCalls events < 2147483648) :
    HashPoolInv (IntHashPool.run size events).1
        (IntHashPool.run size events).2 ∧
      FewNumbers size (getObjCalls events)
        (IntHashPool.run size events).1 := by
  induction events using List.reverseRecOn with
  | nil =>
      exact ⟨hashPoolInv_init size, rfl, fun _ => rfl,
        fun _ _ h => nomatch h⟩
  | append_singleton events e ih =>
      have hcalls : getObjCalls (events ++ [e]) =
          getObjCalls events + getObjCalls [e] := List.countP_append
      rw [hcalls] at hfew ⊢
      obtain ⟨hinv, hnumbers⟩ := ih hnew.of_append (by omega)
      have hguard := And.intro hnew.last (hnumbers.usable hinv hsize hfew)
      rw [IntHashPool.run, Machine.run_concat]
      exact ⟨hinv.step hguard, hnumbers.step hinv hguard hfew⟩

/-- The first 2147483647 objects handed out keep the pool consistent. -/
theorem hashPool_consistent_of_few
    (hsize : 0 ≤ size)
    (hnew : Machine.Along IntHashPool.step IntHashPool.NewObject
      { size := size } events)
    (hfew : getObjCalls events < 2147483648) :
    (IntHashPool.run size events).1.Consistent
      (IntHashPool.run size events).2 :=
  (run_fewNumbers hsize hnew hfew).1.consistent

end Numbers

section Wrap

/-- An object is handed out and given back, again and again. -/
def cycles (n : Nat) : List (HashPoolEvent Nat) :=
  (List.replicate n [.getObj 0, .backObj 0]).flatten

theorem cycles_succ (n : Nat) :
    cycles (n + 1) = cycles n ++ [.getObj 0] ++ [.backObj 0] := by
  rw [cycles, List.replicate_succ', List.flatten_concat]
  simp [cycles]

/-- A pool with the given stack, or without one. -/
def stackPool (stack : Option (List Nat)) : TDicPool Int32 Nat where
  defaultSize := 10
  dloopDic := Function.update Dictionary.empty 0 stack

/-- One free object, and none in use. -/
def cycled (runNumber : Int32) : IntHashPool Nat where
  pool := some (stackPool (some [0]))
  curUseList := some Dictionary.empty
  idTable := some Dictionary.empty
  runNumber := runNumber
  size := 10

/-- The object is out. -/
def handedOut (pool : TDicPool Int32 Nat) (r : Int32) : IntHashPool Nat where
  pool := some pool
  curUseList := some (Function.update Dictionary.empty r (some 0))
  idTable := some (Function.update Dictionary.empty 0 (some r))
  runNumber := IntHashPool.nextNumber r
  size := 10

theorem stackPool_none : stackPool none = { defaultSize := 10 } :=
  congrArg (TDicPool.mk 10) (Function.update_eq_self 0 Dictionary.empty)

theorem stackPool_update (stack : Option (List Nat)) (objs : List Nat) :
    { stackPool stack with
      dloopDic := Function.update (stackPool stack).dloopDic 0 (some objs) } =
      stackPool (some objs) := by
  rw [stackPool, Function.update_idem]
  rfl

theorem getObj_new :
    (({ size := 10 } : IntHashPool Nat).getObj 0).1 =
      handedOut (stackPool none) 1 := by
  rw [stackPool_none]
  rfl

theorem getObj_cycled (r : Int32) :
    ((cycled r).getObj 0).1 = handedOut (stackPool (some [])) r := by
  rw [← stackPool_update (some [0])]
  rfl

theorem backObj_handedOut
    {stack : Option (List Nat)} (hstack : stack.getD [] = []) (r : Int32) :
    ((handedOut (stackPool stack) r).backObj 0).1 =
      if 0 ≤ r then cycled (IntHashPool.nextNumber r)
      else handedOut (stackPool (some [0])) r := by
  have hback : (stackPool stack).backObj 0 0 = some (stackPool (some [0])) := by
    rw [← stackPool_update stack]
    cases stack with
    | none =>
        rfl
    | some objs =>
        cases hstack
        rfl
  have hpool : (handedOut (stackPool stack) r).thePool = stackPool stack := rfl
  have hid : (handedOut (stackPool (some [0])) r).ids 0 = some r := rfl
  have huses : (handedOut (stackPool (some [0])) r).useList.remove r =
      Dictionary.empty := Dictionary.remove_update rfl 0
  have hids : (handedOut (stackPool (some [0])) r).ids.remove 0 =
      Dictionary.empty := Dictionary.remove_update rfl r
  rw [IntHashPool.backObj, hpool, hback]
  show (handedOut (stackPool (some [0])) r).unregister 0 = _
  rw [IntHashPool.unregister_some rfl hid, huses, hids]
  rfl

theorem run_cycles_succ (n : Nat) :
    (IntHashPool.run 10 (cycles (n + 1))).1 =
      (((IntHashPool.run 10 (cycles n)).1.getObj 0).1.backObj 0).1 := by
  rw [cycles_succ, IntHashPool.run, Machine.run_concat, Machine.run_concat]
  rfl

/-- One more cycle needs no new object when one is free. -/
theorem newObject_cycles_succ
    {n : Nat} {r : Int32}
    (hnew : Machine.Along IntHashPool.step IntHashPool.NewObject
      { size := 10 } (cycles n))
    (hrun : (IntHashPool.run 10 (cycles n)).1 = cycled r) :
    Machine.Along IntHashPool.step IntHashPool.NewObject
      { size := 10 } (cycles (n + 1)) := by
  rw [cycles_succ]
  refine (hnew.concat ?_).concat trivial
  intro hnil
  rw [IntHashPool.run] at hrun
  rw [hrun] at hnil
  cases hnil

/-- As long as the numbers have not wrapped the object is free again. -/
theorem run_cycles {n : Nat} (hn : n < 2147483646) :
    ∃ r : Int32, r.toInt = (n + 2 : Nat) ∧
      (IntHashPool.run 10 (cycles (n + 1))).1 = cycled r ∧
      Machine.Along IntHashPool.step IntHashPool.NewObject
        { size := 10 } (cycles (n + 1)) := by
  induction n with
  | zero =>
      refine ⟨2, rfl, ?_, by decide⟩
      have hfirst : (IntHashPool.run 10 (cycles 0)).1 =
          ({ size := 10 } : IntHashPool Nat) := rfl
      rw [run_cycles_succ, hfirst, getObj_new, backObj_handedOut rfl]
      rfl
  | succ n ih =>
      obtain ⟨r, hr, hrun, hnew⟩ := ih (by omega)
      have hpos : 0 ≤ r := by
        rw [Int32.le_iff_toInt_le, hr]
        exact Int.natCast_nonneg _
      refine ⟨IntHashPool.nextNumber r, nextNumber_toInt hr (by omega), ?_,
        newObject_cycles_succ hnew hrun⟩
      rw [run_cycles_succ, hrun, getObj_cycled, backObj_handedOut rfl,
        if_pos hpos]

/-- The number behind the last positive one is negative, and stays. -/
theorem cycles_wrap {n : Nat} (hn : n = 2147483645) :
    Machine.Along IntHashPool.step IntHashPool.NewObject
        { size := 10 } (cycles (n + 3)) ∧
      (IntHashPool.run 10 (cycles (n + 3))).1 =
        handedOut (stackPool (some [0])) (-2147483648) := by
  obtain ⟨r, hr, hrun, hnew⟩ := run_cycles (n := n) (by omega)
  obtain rfl : r = 2147483647 := by
    rw [← Int32.toInt_inj, hr, hn]
    rfl
  have hlast : (IntHashPool.run 10 (cycles (n + 2))).1 =
      cycled (-2147483648) := by
    rw [run_cycles_succ, hrun, getObj_cycled, backObj_handedOut rfl]
    rfl
  have hnew' := newObject_cycles_succ hnew hrun
  refine ⟨newObject_cycles_succ hnew' hlast, ?_⟩
  rw [run_cycles_succ, hlast, getObj_cycled, backObj_handedOut rfl]
  rfl

/-- The object of the first negative number is free and in use. -/
theorem intHashPool_not_consistent :
    Machine.Along IntHashPool.step IntHashPool.NewObject { size := 10 }
        (cycles 2147483648) ∧
      ¬ (IntHashPool.run 10 (cycles 2147483648)).1.Consistent
        (IntHashPool.run 10 (cycles 2147483648)).2 := by
  obtain ⟨hnew, hrun⟩ := cycles_wrap rfl
  refine ⟨hnew, fun hcons => ?_⟩
  have hfree := hcons.free 0
  rw [hrun] at hfree
  exact (hfree List.mem_cons_self).2 (-2147483648) rfl

end Wrap

end Unity
end NetEngine
