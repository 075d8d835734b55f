import CppPractice.Lib.Trace
import Mathlib.Data.List.TakeDrop
import Mathlib.Data.UInt
import Mathlib.Logic.Function.Basic

/-!
# Variable — request variables through `NgxVarManager`

The indexed variables of a request: the values that are kept for them, nginx's lookup, which asks the
variable's handler again when it may not use the value that it has kept, and the reads and writes of
`NgxVarManager` on top of it.

What was written last is kept beside the values.  The condition on a write says when the variable reads as
what was written, whatever its handler would say from then on.
-/

namespace CppPractice
namespace Ngx

/-! ## Values -/

/-- `ngx_variable_value_t`, with the bytes at `data` in place of their address -/
structure VariableValue where
  len : BitVec 28
  valid : Bool
  noCacheable : Bool
  notFound : Bool
  data : Option (List UInt8)
  deriving DecidableEq, Repr

/-- An `ngx_str_t` and the bytes at its `data`. -/
structure VariableStr where
  len : Nat
  data : Option (List UInt8)
  deriving DecidableEq, Repr

/-- `ngx_null_string` -/
def VariableStr.null : VariableStr := ⟨0, none⟩

def VariableStr.bytes (s : VariableStr) : List UInt8 := (s.data.getD []).take s.len

namespace NgxVariableValue

/-- `set(str)`, for a copy of the bytes `v` -/
def set (v : List UInt8) (x : VariableValue) : VariableValue :=
  { x with
    len := BitVec.ofNat 28 v.length
    data := some v
    valid := true
    notFound := false
    noCacheable := false }

def clear (x : VariableValue) : VariableValue :=
  { x with len := 0, data := none, valid := false, notFound := true }

/-- `valid()`, where null is the pointer that the lookup may return -/
def valid : Option VariableValue → Bool
  | none => false
  | some x => x.valid && !x.notFound

def str : Option VariableValue → VariableStr
  | none => VariableStr.null
  | some x => if valid (some x) then ⟨x.len.toNat, x.data⟩ else VariableStr.null

end NgxVariableValue

/-! ## The lookup -/

/-- An indexed `ngx_http_variable_t` of a request with `n` of them. -/
structure HttpVariable (n : Nat) where
  index : Fin n
  /-- `flags & NGX_HTTP_VAR_NOCACHEABLE` -/
  noCacheable : Bool

/-- What `get_handler` does at some time: whether it returns `NGX_OK`, and what it leaves in the value. -/
abbrev GetHandler := VariableValue → Bool × VariableValue

/-- `r->variables` -/
abbrev Variables (n : Nat) := Fin n → VariableValue

section lookup

variable {n : Nat}

/-- `ngx_http_get_indexed_variable`: a pointer into the variables or null, and the variables then -/
def ngxHttpGetIndexedVariable (v : HttpVariable n) (h : GetHandler) (vars : Variables n) :
    Option (Fin n) × Variables n :=
  let x := vars v.index
  if x.notFound || x.valid then
    (some v.index, vars)
  else
    let r := h x
    if r.1 then
      let x := if v.noCacheable then { r.2 with noCacheable := true } else r.2
      (some v.index, Function.update vars v.index x)
    else
      (none, Function.update vars v.index { r.2 with valid := false, notFound := true })

def ngxHttpGetFlushedVariable (v : HttpVariable n) (h : GetHandler) (vars : Variables n) :
    Option (Fin n) × Variables n :=
  let x := vars v.index
  if x.valid || x.notFound then
    if !x.noCacheable then
      (some v.index, vars)
    else
      let x := { x with valid := false, notFound := false }
      ngxHttpGetIndexedVariable v h (Function.update vars v.index x)
  else
    ngxHttpGetIndexedVariable v h vars

end lookup

/-! ## NgxVarManager -/

namespace NgxVarManager

variable {n : Nat} (find : List UInt8 → HttpVariable n) (name : List UInt8) (h : GetHandler)

/-- `var(name)`; `find` is the lookup of the lower-case name in the hash of variables. -/
def var (vars : Variables n) : Option (Fin n) × Variables n :=
  ngxHttpGetFlushedVariable (find name) h vars

def get (vars : Variables n) : VariableStr × Variables n :=
  let r := var find name h vars
  (NgxVariableValue.str (r.1.map r.2), r.2)

/-- `set(name, value)`, with no result where it writes through null -/
def set (value : List UInt8) (vars : Variables n) : Option (Variables n) :=
  let r := var find name h vars
  r.1.map fun i => Function.update r.2 i (NgxVariableValue.set value (r.2 i))

/-- `clear(name)`, with no result where it writes through null -/
def clear (vars : Variables n) : Option (Variables n) :=
  let r := var find name h vars
  r.1.map fun i => Function.update r.2 i (NgxVariableValue.clear (r.2 i))

/-- `operator[](name)`, turned into a string -/
def index (vars : Variables n) : VariableStr × Variables n :=
  let r := var find name h vars
  (NgxVariableValue.str (r.1.map r.2), r.2)

/-- `operator[](name) = value` -/
def assign (value : List UInt8) (vars : Variables n) : Variables n :=
  let r := var find name h vars
  match r.1 with
  | none => r.2
  | some i =>
      if !NgxVariableValue.valid (some (r.2 i)) then
        r.2
      else if value.isEmpty then
        Function.update r.2 i (NgxVariableValue.clear (r.2 i))
      else
        Function.update r.2 i (NgxVariableValue.set value (r.2 i))

end NgxVarManager

/-! ## Runs -/

/-- An operation, with what the variable's handler does if it is asked in it. -/
inductive VarOp
  | get (name : List UInt8) (h : GetHandler)
  | index (name : List UInt8) (h : GetHandler)
  | set (name value : List UInt8) (h : GetHandler)
  | assign (name value : List UInt8) (h : GetHandler)
  | clear (name : List UInt8) (h : GetHandler)

/-- What is written to a variable: bytes, or the null string. -/
inductive Write
  | bytes (v : List UInt8)
  | null
  deriving DecidableEq, Repr

/-- The string that is read is what was written. -/
def Write.Reads : Write → VariableStr → Prop
  | bytes v, s => s.bytes = v
  | null, s => s = VariableStr.null

/-- The variables, and what was written last to each that was written to. -/
structure VarState (n : Nat) where
  vars : Variables n
  written : Fin n → Option Write

section runs

variable {n : Nat} (find : List UInt8 → HttpVariable n)

/-- The write of `w` to a variable, where there is a result. -/
def VarState.write (s : VarState n) (i : Fin n) (w : Write) (vars : Option (Variables n)) :
    Option (VarState n) :=
  vars.map fun vars => ⟨vars, Function.update s.written i (some w)⟩

/-- One operation; nothing is said after a write through null. -/
def VarOp.step (s : Option (VarState n)) (op : VarOp) : Option (VarState n) :=
  s.bind fun s =>
    match op with
    | .get name h => some { s with vars := (NgxVarManager.get find name h s.vars).2 }
    | .index name h => some { s with vars := (NgxVarManager.index find name h s.vars).2 }
    | .set name value h =>
        s.write (find name).index (.bytes value) (NgxVarManager.set find name h value s.vars)
    | .assign name value h =>
        s.write (find name).index (if value.isEmpty then .null else .bytes value)
          (some (NgxVarManager.assign find name h value s.vars))
    | .clear name h => s.write (find name).index .null (NgxVarManager.clear find name h s.vars)

/-- Every variable that was written to reads as what was written last, in both ways of reading it and
whatever its handler would say. -/
def Agrees (s : VarState n) : Prop :=
  ∀ name h w, s.written (find name).index = some w →
    w.Reads (NgxVarManager.get find name h s.vars).1 ∧
      w.Reads (NgxVarManager.index find name h s.vars).1

end runs

/-! ## One value -/

namespace VariableValue

/-- The lookup uses the value as it is kept. -/
def Cached (x : VariableValue) : Prop := x.noCacheable = false ∧ (x.valid || x.notFound) = true

instance (x : VariableValue) : Decidable x.Cached := by
  unfold Cached
  infer_instance

/-- The value that the handler gets. -/
def flushed (x : VariableValue) : VariableValue := { x with valid := false, notFound := false }

/-- What is kept of the handler's result. -/
def evaluated (noCacheable : Bool) (r : Bool × VariableValue) : Bool × VariableValue :=
  if r.1 then
    (true, if noCacheable then { r.2 with noCacheable := true } else r.2)
  else
    (false, { r.2 with valid := false, notFound := true })

/-- Whether the lookup gives a value, and the value that is kept then. -/
def looked (noCacheable : Bool) (h : GetHandler) (x : VariableValue) : Bool × VariableValue :=
  if x.Cached then (true, x) else evaluated noCacheable (h x.flushed)

/-- The string read from what a lookup gives. -/
def said (r : Bool × VariableValue) : VariableStr :=
  NgxVariableValue.str (if r.1 then some r.2 else none)

theorem flushed_of_neither {x : VariableValue} (h : (x.valid || x.notFound) = false) :
    x.flushed = x := by
  rcases x with ⟨len, valid, noCacheable, notFound, data⟩
  have hparts : valid = false ∧ notFound = false := by simpa using h
  simp [flushed, hparts.1, hparts.2]

theorem looked_evaluated (noCacheable : Bool) (h : GetHandler) {x : VariableValue}
    (hx : ¬x.Cached) : looked noCacheable h x = evaluated noCacheable (h x.flushed) := if_neg hx

@[simp] theorem fst_evaluated (noCacheable : Bool) (r : Bool × VariableValue) :
    (evaluated noCacheable r).1 = r.1 := by
  rcases r with ⟨_ | _, y⟩
  · rfl
  · rfl

/-- What the handler gives may be used again if neither the variable nor the handler forbids it. -/
theorem noCacheable_evaluated (noCacheable : Bool) (r : Bool × VariableValue) :
    (evaluated noCacheable r).2.noCacheable = false ↔
      (r.1 = true → noCacheable = false) ∧ r.2.noCacheable = false := by
  rcases r with ⟨_ | _, y⟩
  · simp [evaluated]
  · cases noCacheable with
    | true => simp [evaluated]
    | false => simp [evaluated]

theorem cached_evaluated (noCacheable : Bool) (r : Bool × VariableValue) :
    (evaluated noCacheable r).2.Cached ↔ r.2.noCacheable = false ∧
      (r.1 = true → noCacheable = false ∧ (r.2.valid || r.2.notFound) = true) := by
  rw [Cached, noCacheable_evaluated]
  rcases r with ⟨_ | _, y⟩
  · simp [evaluated]
  · cases noCacheable with
    | true => simp
    | false => simp [evaluated]

theorem valid_evaluated (noCacheable : Bool) (r : Bool × VariableValue) :
    NgxVariableValue.valid (some (evaluated noCacheable r).2) = true ↔
      r.1 = true ∧ NgxVariableValue.valid (some r.2) = true := by
  rcases r with ⟨_ | _, y⟩
  · simp [evaluated, NgxVariableValue.valid]
  · cases noCacheable with
    | true => simp [evaluated, NgxVariableValue.valid]
    | false => simp [evaluated, NgxVariableValue.valid]

/-- A lookup that gives null keeps a value that is not valid. -/
theorem not_valid_of_null {noCacheable : Bool} {h : GetHandler} {x : VariableValue}
    (hnull : (looked noCacheable h x).1 = false) :
    NgxVariableValue.valid (some (looked noCacheable h x).2) = false := by
  by_cases hc : x.Cached
  · simp [looked, hc] at hnull
  · rw [looked_evaluated _ _ hc] at hnull ⊢
    rw [fst_evaluated] at hnull
    apply Bool.eq_false_iff.2
    rw [Ne, valid_evaluated, hnull]
    simp

theorem looked_cached (noCacheable : Bool) (h : GetHandler) {x : VariableValue} (hx : x.Cached) :
    looked noCacheable h x = (true, x) := if_pos hx

/-- Bytes that are set are kept, and their number if it fits into 28 bits. -/
theorem str_set (v : List UInt8) (x : VariableValue) :
    NgxVariableValue.str (some (NgxVariableValue.set v x)) = ⟨v.length % 2 ^ 28, some v⟩ := by
  simp [NgxVariableValue.str, NgxVariableValue.valid, NgxVariableValue.set]

theorem cached_set (v : List UInt8) (x : VariableValue) : (NgxVariableValue.set v x).Cached :=
  ⟨rfl, rfl⟩

theorem str_clear (x : VariableValue) :
    NgxVariableValue.str (some (NgxVariableValue.clear x)) = VariableStr.null := rfl

theorem cached_clear (x : VariableValue) :
    (NgxVariableValue.clear x).Cached ↔ x.noCacheable = false := by
  simp [Cached, NgxVariableValue.clear]

/-- A string of another value than what was written. -/
theorem exists_other (w : Write) : ∃ x : VariableValue, ¬w.Reads (NgxVariableValue.str (some x)) := by
  cases w with
  | bytes v =>
      by_cases hv : v = []
      · refine ⟨⟨1, true, false, false, some [0]⟩, ?_⟩
        intro hreads
        rw [hv] at hreads
        have hbytes : ([0] : List UInt8) = [] := hreads
        cases hbytes
      · refine ⟨⟨0, false, false, true, none⟩, ?_⟩
        intro hreads
        exact hv (Eq.symm hreads)
  | null =>
      refine ⟨⟨1, true, false, false, some [0]⟩, ?_⟩
      intro hreads
      cases hreads

/-- A value reads as what was written whatever the handler would say exactly where it is kept and says
so. -/
theorem reads_iff (noCacheable : Bool) (w : Write) (x : VariableValue) :
    (∀ h, w.Reads (said (looked noCacheable h x))) ↔
      x.Cached ∧ w.Reads (NgxVariableValue.str (some x)) := by
  constructor
  · intro h
    by_cases hx : x.Cached
    · have hread := h fun y => (true, y)
      rw [looked_cached _ _ hx] at hread
      exact ⟨hx, hread⟩
    · -- the handler may leave a value that reads as something else
      rcases exists_other w with ⟨y, hy⟩
      have hread := h fun _ => (true, y)
      exfalso
      apply hy
      cases noCacheable with
      | true => simpa [looked, evaluated, hx, said, NgxVariableValue.str, NgxVariableValue.valid] using hread
      | false => simpa [looked, evaluated, hx, said] using hread
  · rintro ⟨hx, hw⟩ h
    rw [looked_cached _ _ hx]
    exact hw

end VariableValue

section cells

open VariableValue

variable {n : Nat} (find : List UInt8 → HttpVariable n) (name : List UInt8) (h : GetHandler)

/-- A value that is neither valid nor not found is evaluated. -/
theorem getIndexed_of_neither {v : HttpVariable n} {vars : Variables n}
    (hneither : ((vars v.index).valid || (vars v.index).notFound) = false) :
    ngxHttpGetIndexedVariable v h vars =
      let r := evaluated v.noCacheable (h (vars v.index))
      (if r.1 then some v.index else none, Function.update vars v.index r.2) := by
  have hneither' : ((vars v.index).notFound || (vars v.index).valid) = false := by
    rw [Bool.or_comm]
    exact hneither
  cases hok : (h (vars v.index)).1 with
  | true => simp [ngxHttpGetIndexedVariable, hneither', evaluated, hok]
  | false => simp [ngxHttpGetIndexedVariable, hneither', evaluated, hok]

/-- The lookup of a variable is about its own value only. -/
theorem getFlushed_eq (v : HttpVariable n) (vars : Variables n) :
    ngxHttpGetFlushedVariable v h vars =
      let r := looked v.noCacheable h (vars v.index)
      (if r.1 then some v.index else none, Function.update vars v.index r.2) := by
  cases hset : ((vars v.index).valid || (vars v.index).notFound) with
  | true =>
      cases hno : (vars v.index).noCacheable with
      | true =>
          -- flushed, and evaluated
          have hnot : ¬(vars v.index).Cached := fun hcached => by simp [hcached.1] at hno
          obtain ⟨vars', hvars'⟩ : ∃ vars', vars' =
              Function.update vars v.index (vars v.index).flushed := ⟨_, rfl⟩
          have hat : vars' v.index = (vars v.index).flushed := by rw [hvars', Function.update_self]
          have hneither : ((vars' v.index).valid || (vars' v.index).notFound) = false := by
            rw [hat]
            rfl
          have heval := getIndexed_of_neither h hneither
          have hflush : ngxHttpGetFlushedVariable v h vars = ngxHttpGetIndexedVariable v h vars' := by
            simp only [ngxHttpGetFlushedVariable, hset, hno, hvars', flushed]
            rfl
          rw [hflush, heval, hat, hvars', looked, if_neg hnot]
          simp only [Function.update_idem]
      | false =>
          have hcached : (vars v.index).Cached := ⟨hno, hset⟩
          simp [ngxHttpGetFlushedVariable, hset, hno, looked, hcached]
  | false =>
      have hnot : ¬(vars v.index).Cached := fun hcached => by simp [hcached.2] at hset
      have hflushed : (vars v.index).flushed = vars v.index := flushed_of_neither hset
      have hdirect : ngxHttpGetFlushedVariable v h vars = ngxHttpGetIndexedVariable v h vars := by
        simp only [ngxHttpGetFlushedVariable, hset]
        rfl
      rw [hdirect, getIndexed_of_neither h hset, looked, if_neg hnot, hflushed]

end cells

/-! ## The condition -/

namespace VariableValue

/-- The value is kept, and says `w`. -/
def Keeps (w : Write) (x : VariableValue) : Prop :=
  x.Cached ∧ w.Reads (NgxVariableValue.str (some x))

/-- Bytes are kept exactly where their number fits into 28 bits. -/
theorem keeps_set (v : List UInt8) (x : VariableValue) :
    Keeps (.bytes v) (NgxVariableValue.set v x) ↔ v.length < 2 ^ 28 := by
  have hreads : (Write.bytes v).Reads (NgxVariableValue.str (some (NgxVariableValue.set v x))) ↔
      v.take (v.length % 2 ^ 28) = v := by
    rw [str_set]
    exact Iff.rfl
  rw [Keeps, hreads, List.take_eq_self_iff]
  constructor
  · rintro ⟨-, hle⟩
    exact Nat.lt_of_le_of_lt hle (Nat.mod_lt _ (by decide))
  · intro hlt
    exact ⟨cached_set v x, Nat.le_of_eq (Nat.mod_eq_of_lt hlt).symm⟩

theorem keeps_clear (x : VariableValue) :
    Keeps .null (NgxVariableValue.clear x) ↔ x.noCacheable = false := by
  rw [Keeps, cached_clear]
  exact and_iff_left (str_clear x)

/-- A value that is not valid says nothing but the null string. -/
theorem str_of_not_valid {x : VariableValue} (hx : NgxVariableValue.valid (some x) = false) :
    NgxVariableValue.str (some x) = VariableStr.null := by
  simp [NgxVariableValue.str, hx]

/-- What `operator[]` makes of a value. -/
def assigned (value : List UInt8) (x : VariableValue) : VariableValue :=
  if NgxVariableValue.valid (some x) then
    (if value.isEmpty then NgxVariableValue.clear x else NgxVariableValue.set value x)
  else x

/-- What is assigned is kept by a valid value; the null string is by one that is kept itself. -/
theorem keeps_assigned (value : List UInt8) (x : VariableValue) :
    Keeps (if value.isEmpty then .null else .bytes value) (assigned value x) ↔
      if value.isEmpty then x.Cached
      else NgxVariableValue.valid (some x) = true ∧ value.length < 2 ^ 28 := by
  cases hvalid : NgxVariableValue.valid (some x) with
  | true =>
      have hset : (x.valid || x.notFound) = true := by
        have hparts : x.valid = true ∧ x.notFound = false := by
          simpa [NgxVariableValue.valid] using hvalid
        simp [hparts.1]
      rw [assigned, if_pos hvalid]
      cases hempty : value.isEmpty with
      | true =>
          rw [if_pos rfl, if_pos rfl, if_pos rfl, keeps_clear]
          exact ⟨fun hno => ⟨hno, hset⟩, fun hc => hc.1⟩
      | false =>
          simp only [Bool.false_eq_true, if_false, keeps_set, true_and]
  | false =>
      rw [assigned, hvalid, if_neg Bool.false_ne_true]
      cases hempty : value.isEmpty with
      | true => exact and_iff_left (str_of_not_valid hvalid)
      | false =>
          -- the assignment is lost, and the null string has no bytes
          simp only [Bool.false_eq_true, if_false, false_and, iff_false]
          rintro ⟨-, hreads⟩
          rw [str_of_not_valid hvalid] at hreads
          have hnil : value = [] := hreads.symm
          rw [hnil] at hempty
          cases hempty

end VariableValue

section condition

open VariableValue

variable {n : Nat} (find : List UInt8 → HttpVariable n)

/-- The state before a write and what the handler does then are such that the write is kept.

The value is used as it is kept, or the handler gives one.  Bytes fit into 28 bits, and through
`operator[]` they replace a valid value only.  What is cleared must not be evaluated again. -/
def Meets (s : VarState n) : VarOp → Prop
  | .get _ _ | .index _ _ => True
  | .set name value h =>
      ((s.vars (find name).index).Cached ∨ (h (s.vars (find name).index).flushed).1 = true) ∧
        value.length < 2 ^ 28
  | .assign name value h =>
      let x := s.vars (find name).index
      let r := h x.flushed
      if value.isEmpty then
        x.Cached ∨ (r.2.noCacheable = false ∧
          (r.1 = true → (find name).noCacheable = false ∧ (r.2.valid || r.2.notFound) = true))
      else
        (if x.Cached then NgxVariableValue.valid (some x) = true
          else r.1 = true ∧ NgxVariableValue.valid (some r.2) = true) ∧ value.length < 2 ^ 28
  | .clear name h =>
      let x := s.vars (find name).index
      let r := h x.flushed
      x.Cached ∨ (r.1 = true ∧ (find name).noCacheable = false ∧ r.2.noCacheable = false)

/-- The condition on the state, or on the value that each variable has. -/
theorem agrees_iff (s : VarState n) :
    Agrees find s ↔ ∀ name w, s.written (find name).index = some w →
      Keeps w (s.vars (find name).index) := by
  have hget : ∀ name h, (NgxVarManager.get find name h s.vars).1 =
      said (looked (find name).noCacheable h (s.vars (find name).index)) := by
    intro name h
    cases hok : (looked (find name).noCacheable h (s.vars (find name).index)).1 with
    | true => simp [NgxVarManager.get, NgxVarManager.var, getFlushed_eq, said, hok]
    | false => simp [NgxVarManager.get, NgxVarManager.var, getFlushed_eq, said, hok]
  constructor
  · intro hagrees name w hw
    apply (reads_iff (find name).noCacheable w _).1
    intro h
    rw [← hget]
    exact (hagrees name h w hw).1
  · intro hkeeps name h w hw
    have hreads := (reads_iff (find name).noCacheable w _).2 (hkeeps name w hw) h
    rw [← hget] at hreads
    exact ⟨hreads, hreads⟩

/-- The variables after a lookup. -/
theorem var_eq (name : List UInt8) (h : GetHandler) (vars : Variables n) :
    NgxVarManager.var find name h vars =
      let r := looked (find name).noCacheable h (vars (find name).index)
      (if r.1 then some (find name).index else none,
        Function.update vars (find name).index r.2) :=
  getFlushed_eq h (find name) vars

/-- A lookup does not change what has been written. -/
theorem agrees_looked {s : VarState n} (hs : Agrees find s) (name : List UInt8) (h : GetHandler) :
    Agrees find { s with vars := (NgxVarManager.var find name h s.vars).2 } := by
  rw [agrees_iff] at hs ⊢
  intro name' w hw
  simp only [var_eq]
  by_cases heq : (find name').index = (find name).index
  · have hkeeps : Keeps w (s.vars (find name).index) := heq ▸ hs name' w hw
    rw [heq, Function.update_self, looked_cached _ _ hkeeps.1]
    exact hkeeps
  · rw [Function.update_of_ne heq]
    exact hs name' w hw

/-- After a write everything reads as it was written exactly where the value written does. -/
theorem agrees_write {s : VarState n} (hs : Agrees find s) (name : List UInt8) (w : Write)
    (x : VariableValue) :
    Agrees find ⟨Function.update s.vars (find name).index x,
      Function.update s.written (find name).index (some w)⟩ ↔ Keeps w x := by
  rw [agrees_iff] at hs ⊢
  constructor
  · intro hall
    have hname := hall name w (Function.update_self ..)
    simpa using hname
  · intro hkeeps name' w' hw'
    by_cases heq : (find name').index = (find name).index
    · simp only [heq, Function.update_self, Option.some.injEq] at hw' ⊢
      exact hw' ▸ hkeeps
    · simp only [Function.update_of_ne heq] at hw' ⊢
      exact hs name' w' hw'

theorem set_eq (name value : List UInt8) (h : GetHandler) (vars : Variables n) :
    NgxVarManager.set find name h value vars =
      let r := looked (find name).noCacheable h (vars (find name).index)
      if r.1 then
        some (Function.update vars (find name).index (NgxVariableValue.set value r.2)) else none := by
  cases hok : (looked (find name).noCacheable h (vars (find name).index)).1 with
  | true => simp [NgxVarManager.set, var_eq, hok]
  | false => simp [NgxVarManager.set, var_eq, hok]

theorem clear_eq (name : List UInt8) (h : GetHandler) (vars : Variables n) :
    NgxVarManager.clear find name h vars =
      let r := looked (find name).noCacheable h (vars (find name).index)
      if r.1 then
        some (Function.update vars (find name).index (NgxVariableValue.clear r.2)) else none := by
  cases hok : (looked (find name).noCacheable h (vars (find name).index)).1 with
  | true => simp [NgxVarManager.clear, var_eq, hok]
  | false => simp [NgxVarManager.clear, var_eq, hok]

/-- `operator[]` writes to the variable's value if it is valid, and otherwise not at all. -/
theorem assign_eq (name value : List UInt8) (h : GetHandler) (vars : Variables n) :
    NgxVarManager.assign find name h value vars =
      let r := looked (find name).noCacheable h (vars (find name).index)
      Function.update vars (find name).index (assigned value r.2) := by
  obtain ⟨r, hr⟩ : ∃ r, r = looked (find name).noCacheable h (vars (find name).index) := ⟨_, rfl⟩
  simp only [NgxVarManager.assign, var_eq, ← hr]
  cases hok : r.1 with
  | true =>
      cases hvalid : NgxVariableValue.valid (some r.2) with
      | true =>
          cases hempty : value.isEmpty with
          | true => simp [assigned, hvalid, hempty]
          | false => simp [assigned, hvalid, hempty]
      | false => simp [assigned, hvalid]
  | false =>
      have hvalid : NgxVariableValue.valid (some r.2) = false := by
        rw [hr] at hok ⊢
        exact not_valid_of_null hok
      simp [assigned, hvalid]

/-- A step comes to a state in which everything reads as it was written. -/
def Good (s : Option (VarState n)) : Prop := ∃ t, s = some t ∧ Agrees find t

/-- The condition on an assignment, in terms of the value that the lookup leaves. -/
theorem meets_assign (s : VarState n) (name value : List UInt8) (h : GetHandler) :
    Meets find s (.assign name value h) ↔
    if value.isEmpty then
      (looked (find name).noCacheable h (s.vars (find name).index)).2.Cached
    else
      NgxVariableValue.valid
        (some (looked (find name).noCacheable h (s.vars (find name).index)).2) = true ∧
      value.length < 2 ^ 28 := by
  by_cases hc : (s.vars (find name).index).Cached
  · cases hempty : value.isEmpty with
    | true => simp [Meets, hempty, hc, looked]
    | false => simp [Meets, hempty, hc, looked]
  · rw [looked_evaluated _ _ hc, cached_evaluated, valid_evaluated]
    cases hempty : value.isEmpty with
    | true => simp [Meets, hempty, hc]
    | false => simp [Meets, hempty, hc]

section step

variable {s : VarState n} (hs : Agrees find s) (name value : List UInt8) (h : GetHandler)
include hs

/-- A write that throws where the lookup fails is kept exactly where the lookup does not fail and the value
written keeps it. -/
theorem good_write (w : Write) (f : VariableValue → VariableValue) :
    Good find (s.write (find name).index w
      (let r := looked (find name).noCacheable h (s.vars (find name).index)
      if r.1 then some (Function.update s.vars (find name).index (f r.2)) else none)) ↔
    (looked (find name).noCacheable h (s.vars (find name).index)).1 = true ∧
      Keeps w (f (looked (find name).noCacheable h (s.vars (find name).index)).2) := by
  have hgood := agrees_write find hs name w
    (f (looked (find name).noCacheable h (s.vars (find name).index)).2)
  cases hok : (looked (find name).noCacheable h (s.vars (find name).index)).1 with
  | true => simpa [Good, VarState.write, hok] using hgood
  | false => simp [Good, VarState.write, hok]

theorem good_set :
    Good find (VarOp.step find (some s) (.set name value h)) ↔ Meets find s (.set name value h) := by
  have hlooked : (looked (find name).noCacheable h (s.vars (find name).index)).1 = true ↔
      (s.vars (find name).index).Cached ∨ (h (s.vars (find name).index).flushed).1 = true := by
    by_cases hc : (s.vars (find name).index).Cached
    · simp [looked, hc]
    · simp [looked_evaluated, hc]
  have hgood := good_write find hs name h (.bytes value) (NgxVariableValue.set value)
  rw [← set_eq, keeps_set, hlooked] at hgood
  exact hgood

theorem good_clear :
    Good find (VarOp.step find (some s) (.clear name h)) ↔ Meets find s (.clear name h) := by
  obtain ⟨x, hx⟩ : ∃ x, x = s.vars (find name).index := ⟨_, rfl⟩
  have hlooked : ((looked (find name).noCacheable h x).1 = true ∧
      (looked (find name).noCacheable h x).2.noCacheable = false) ↔
      x.Cached ∨ ((h x.flushed).1 = true ∧ (find name).noCacheable = false ∧
        (h x.flushed).2.noCacheable = false) := by
    by_cases hc : x.Cached
    · simp [looked, hc, hc.1]
    · rw [looked_evaluated _ _ hc, fst_evaluated, noCacheable_evaluated]
      cases hok : (h x.flushed).1 with
      | true => simp [hc]
      | false => simp [hc]
  have hgood := good_write find hs name h .null NgxVariableValue.clear
  rw [← clear_eq, keeps_clear, ← hx, hlooked, hx] at hgood
  exact hgood

theorem good_assign :
    Good find (VarOp.step find (some s) (.assign name value h)) ↔
      Meets find s (.assign name value h) := by
  have hwrite := agrees_write find hs name (if value.isEmpty then .null else .bytes value)
    (assigned value (looked (find name).noCacheable h (s.vars (find name).index)).2)
  rw [meets_assign, ← keeps_assigned, ← hwrite]
  simp [Good, VarOp.step, VarState.write, assign_eq]

end step

/-- Reads keep everything, and a write is kept exactly where it meets the condition. -/
theorem good_step {s : VarState n} (hs : Agrees find s) (op : VarOp) :
    Good find (VarOp.step find (some s) op) ↔ Meets find s op := by
  cases op with
  | get name h => exact iff_of_true ⟨_, rfl, agrees_looked find hs name h⟩ trivial
  | index name h => exact iff_of_true ⟨_, rfl, agrees_looked find hs name h⟩ trivial
  | set name value h => exact good_set find hs name value h
  | assign name value h => exact good_assign find hs name value h
  | clear name h => exact good_clear find hs name h

/-- In a run all reads return what was written last at every state exactly where every write meets the
condition. -/
theorem variables_agree_iff (vars : Variables n) (ops : List VarOp) :
    Trace.Along (VarOp.step find) (fun s op => Good find (VarOp.step find s op))
        (some ⟨vars, fun _ => none⟩) ops ↔
      Trace.Along (VarOp.step find) (fun s op => ∃ t, s = some t ∧ Meets find t op)
        (some ⟨vars, fun _ => none⟩) ops := by
  have hexact : ∀ s op, Good find s →
      (Good find (VarOp.step find s op) ↔ ∃ t, s = some t ∧ Meets find t op) := by
    rintro s op ⟨t, rfl, ht⟩
    rw [good_step find ht]
    constructor
    · exact fun hmeets => ⟨t, rfl, hmeets⟩
    · rintro ⟨t', heq, hmeets⟩
      cases heq
      exact hmeets
  apply Trace.along_iff_along (J := Good find)
  · exact fun s op hs hop => (hexact s op hs).2 hop
  · exact hexact
  · refine ⟨_, rfl, ?_⟩
    intro name h w hw
    cases hw

end condition

/-! ## Writes that are lost -/

/-- The only variable. -/
def theVariable (noCacheable : Bool) : List UInt8 → HttpVariable 1 := fun _ => ⟨0, noCacheable⟩

/-- The values that a handler sets. -/
def constantHandler (v : List UInt8) : GetHandler := fun x => (true, NgxVariableValue.set v x)

/-- An assignment through `operator[]` to a variable that is not found is lost, a variable that may not be
cached is evaluated again after it has been cleared, and of 2^28 bytes none are kept. -/
theorem variables_write_lost :
    (¬Trace.Along (VarOp.step (theVariable false)) (fun s op => Good (theVariable false)
        (VarOp.step (theVariable false) s op))
      (some ⟨fun _ => ⟨0, false, false, true, none⟩, fun _ => none⟩)
      [.assign [118] [120] (constantHandler [49])]) ∧
    (¬Trace.Along (VarOp.step (theVariable true)) (fun s op => Good (theVariable true)
        (VarOp.step (theVariable true) s op))
      (some ⟨fun _ => ⟨1, true, true, false, some [49]⟩, fun _ => none⟩)
      [.clear [118] (constantHandler [49])]) ∧
    ¬Trace.Along (VarOp.step (theVariable false)) (fun s op => Good (theVariable false)
        (VarOp.step (theVariable false) s op))
      (some ⟨fun _ => ⟨1, true, false, false, some [49]⟩, fun _ => none⟩)
      [.set [118] (List.replicate (2 ^ 28) 0) (constantHandler [49])] := by
  have hnone : ∀ (find : List UInt8 → HttpVariable 1) vars, Agrees find ⟨vars, fun _ => none⟩ := by
    intro find vars name h w hw
    cases hw
  refine ⟨?_, ?_, ?_⟩
  · rw [Trace.along_cons, good_step _ (hnone _ _)]
    rintro ⟨hmeets, -⟩
    exact absurd hmeets.1 (by decide)
  · rw [Trace.along_cons, good_step _ (hnone _ _)]
    rintro ⟨hmeets, -⟩
    rcases hmeets with hcached | ⟨-, hno, -⟩
    · exact absurd hcached (by decide)
    · cases hno
  · rw [Trace.along_cons, good_step _ (hnone _ _)]
    rintro ⟨hmeets, -⟩
    rw [Meets, List.length_replicate] at hmeets
    exact Nat.lt_irrefl _ hmeets.2

end Ngx
end CppPractice
