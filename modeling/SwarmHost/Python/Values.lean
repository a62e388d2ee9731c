import Mathlib.Data.Int.Notation
import Mathlib.Data.List.Basic
import Mathlib.Tactic.Common

/-! # Python values and their conversion

The values that a host function receives from Python code, and the conversions a
host can ask for. A conversion succeeds, raises a Python error, or panics where
the host unwraps something that is not there. `Safe` says that a conversion does
not panic; it is read off a conversion bind by bind.
-/

namespace SwarmHost.Python

/-- A code point of a Python string, which may be a lone surrogate. -/
abbrev CodePoint := Fin 0x110000

inductive PyValue where
  | pyNone
  | bool (b : Bool)
  | int (n : ℤ)
  | str (text : List CodePoint)
  | bytes (data : List UInt8)
  | list (items : List PyValue)
  | tuple (items : List PyValue)
  | dict (entries : List (PyValue × PyValue))
  /-- Any other object: the integer it stands for and the items it yields, if it has them. -/
  | object (index : Option ℤ) (items : Option (List PyValue))

/-- The entries of a dictionary. -/
abbrev PyDict := List (PyValue × PyValue)

inductive PyErr where
  /-- The value is not an instance of the type that is asked for. -/
  | downcast (value : PyValue) (target : String)
  /-- The value has no counterpart in the type that is asked for. -/
  | extract (value : PyValue) (target : String)
  /-- Raised by the Python code. -/
  | raised (message : String)

/-- A conversion: a value, a Python error, or no result if the host panics. -/
abbrev PyResult (α : Type) := ExceptT PyErr Option α

namespace PyResult

variable {α β : Type}

/-- The host panics if there is nothing. -/
def unwrap (o : Option α) : PyResult α := ExceptT.mk (o.map .ok)

/-- The error is raised if there is nothing. -/
def okOr (o : Option α) (e : PyErr) : PyResult α :=
  match o with
  | some a => pure a
  | none => throw e

/-- The conversion does not panic. -/
def Safe (x : PyResult α) : Prop := x.run.isSome

/-- The conversion succeeds with a value. -/
def Gives (x : PyResult α) (a : α) : Prop := x.run = some (.ok a)

def Raises (x : PyResult α) : Prop := ∃ e, x.run = some (.error e)

variable {x : PyResult α} {f : α → PyResult β} {o : Option α} {e : PyErr} {a : α}

@[simp] theorem safe_pure : (pure a : PyResult α).Safe := rfl

@[simp] theorem safe_unwrap : (unwrap o).Safe ↔ ∃ a, o = some a := by
  cases o <;> simp [unwrap, Safe]

/-- A conversion in two steps is safe if the first is and the second is for what the first gives. -/
theorem safe_bind : (x >>= f).Safe ↔ x.Safe ∧ ∀ a, x.Gives a → (f a).Safe := by
  simp only [Safe, Gives, ExceptT.run_bind]
  cases x.run with
  | none => simp
  | some r => cases r <;> simp [ExceptT.run]

@[simp] theorem unwrap_none_bind : (unwrap none >>= f) = unwrap none := rfl

@[simp] theorem unwrap_some_bind : (unwrap (some a) >>= f) = f a := rfl

@[simp] theorem safe_unwrap_bind : (unwrap o >>= f).Safe ↔ ∃ a, o = some a ∧ (f a).Safe := by
  cases o <;> simp

@[simp] theorem safe_okOr_bind : (okOr o e >>= f).Safe ↔ ∀ a, o = some a → (f a).Safe := by
  cases o <;> simp [okOr, Safe]

@[simp] theorem not_raises_pure : ¬ (pure a : PyResult α).Raises := by
  rintro ⟨e, h⟩
  cases h

@[simp] theorem not_raises_unwrap : ¬ (unwrap o).Raises := by
  rintro ⟨e, h⟩
  cases o <;> cases h

@[simp] theorem raises_unwrap_bind :
    (unwrap o >>= f).Raises ↔ ∃ a, o = some a ∧ (f a).Raises := by
  cases o <;> simp

@[simp] theorem raises_okOr_bind :
    (okOr o e >>= f).Raises ↔ ∀ a, o = some a → (f a).Raises := by
  cases o <;> simp [okOr, Raises]

@[simp] theorem safe_map {g : α → β} : (g <$> x).Safe ↔ x.Safe := by
  simp only [Safe, ExceptT.run_map]
  cases x.run <;> simp

@[simp] theorem raises_map {g : α → β} : (g <$> x).Raises ↔ x.Raises := by
  simp only [Raises, ExceptT.run_map]
  cases x.run with
  | none => simp
  | some r => cases r <;> simp [Except.map]

theorem Safe.not_raises_iff (h : x.Safe) : ¬ x.Raises ↔ ∃ a, x.Gives a := by
  obtain ⟨r, hr⟩ := Option.isSome_iff_exists.mp h
  cases r <;> simp [Raises, Gives, hr]

theorem unwrap_bind (o : Option α) (g : α → Option β) :
    (unwrap o >>= fun a => unwrap (g a)) = unwrap (o.bind g) := by
  cases o <;> rfl

theorem mapM_unwrap (g : α → Option β) (l : List α) :
    l.mapM (fun a => unwrap (g a)) = unwrap (l.mapM g) := by
  induction l with
  | nil => rfl
  | cons a l ih =>
    simp only [List.mapM_cons, ih]
    cases g a with
    | none => rfl
    | some b => cases l.mapM g <;> rfl

end PyResult

namespace PyValue

def toStr? (text : List CodePoint) : Option String :=
  (text.mapM fun c : CodePoint =>
    if c.val.isValidChar then some (Char.ofNat c) else none).map String.ofList

def downcastStr? : PyValue → Option (List CodePoint)
  | .str text => some text
  | _ => none

def downcastList? : PyValue → Option (List PyValue)
  | .list items => some items
  | _ => none

def downcastDict? : PyValue → Option PyDict
  | .dict entries => some entries
  | _ => none

/-- `String` as the target of a conversion. -/
def extractString? : PyValue → Option String
  | .str text => toStr? text
  | _ => none

def index? : PyValue → Option ℤ
  | .bool b => some b.toInt
  | .int n => some n
  | .object index _ => index
  | _ => none

/-- `u8` as the target of a conversion. -/
def extractU8? (v : PyValue) : Option UInt8 :=
  v.index?.bind fun n => if 0 ≤ n ∧ n < 256 then some (UInt8.ofNat n.toNat) else none

/-- `Vec<u8>` as the target of a conversion: any sequence but a string. -/
def extractVecU8? : PyValue → Option (List UInt8)
  | .bytes data => some data
  | .list items | .tuple items | .object _ (some items) => items.mapM extractU8?
  | _ => none

end PyValue

def PyDict.getItem? (d : PyDict) (key : String) : Option PyValue :=
  (d.find? fun entry => entry.1.extractString? = some key).map Prod.snd

end SwarmHost.Python
