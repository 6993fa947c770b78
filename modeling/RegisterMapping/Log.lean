/-!
# Traced computations

The register tables report every change that is made to them, and a pass over a program reports
its progress. A `Traced` computation keeps the records it has made in order, together with its
outcome. The records made before a failure are kept: `Traced.log_bind` says that the log of a
sequence is the log of the first part followed by the log of the part that its value selects.
-/

set_option autoImplicit false

namespace RegisterMapping

/-- The importance of a record. -/
inductive LogLevel where
  | trace
  | info
  | warn
  deriving DecidableEq, Repr

/-- The name of a level in a log. -/
def LogLevel.text : LogLevel → String
  | .trace => "trace"
  | .info => "info"
  | .warn => "warn"

/-- One line of a log. -/
structure LogRecord where
  level : LogLevel
  message : String
  deriving DecidableEq, Repr

/-- An outcome together with the records made on the way to it, oldest first. -/
structure Traced (ε α : Type) where
  log : List LogRecord
  outcome : Except ε α

namespace Traced

variable {ε ε' α β : Type}

/-- The computation that returns `a` and records nothing. -/
protected def pure (a : α) : Traced ε α := ⟨[], .ok a⟩

/-- The computation that fails with `e` and records nothing. -/
def fail (e : ε) : Traced ε α := ⟨[], .error e⟩

/-- The computation that makes one record. -/
def record (level : LogLevel) (message : String) : Traced ε Unit :=
  ⟨[⟨level, message⟩], .ok ()⟩

/-- Sequencing: a failure ends the computation, and the log so far stays. -/
protected def bind (x : Traced ε α) (f : α → Traced ε β) : Traced ε β :=
  match x.outcome with
  | .ok a => ⟨x.log ++ (f a).log, (f a).outcome⟩
  | .error e => ⟨x.log, .error e⟩

instance : Monad (Traced ε) where
  pure := Traced.pure
  bind := Traced.bind

/-- Change the error of a computation and leave its log alone. -/
def mapError (f : ε → ε') (x : Traced ε α) : Traced ε' α :=
  ⟨x.log, x.outcome.mapError f⟩

/-! ## What each operation does to log and outcome -/

@[simp]
theorem log_pure (a : α) : (pure a : Traced ε α).log = [] := rfl

@[simp]
theorem outcome_pure (a : α) : (pure a : Traced ε α).outcome = .ok a := rfl

@[simp]
theorem log_fail (e : ε) : (fail e : Traced ε α).log = [] := rfl

@[simp]
theorem outcome_fail (e : ε) : (fail e : Traced ε α).outcome = .error e := rfl

@[simp]
theorem log_record (level : LogLevel) (message : String) :
    (record level message : Traced ε Unit).log = [⟨level, message⟩] := rfl

@[simp]
theorem outcome_record (level : LogLevel) (message : String) :
    (record level message : Traced ε Unit).outcome = .ok () := rfl

@[simp]
theorem log_mapError (f : ε → ε') (x : Traced ε α) : (x.mapError f).log = x.log := rfl

@[simp]
theorem outcome_mapError (f : ε → ε') (x : Traced ε α) :
    (x.mapError f).outcome = x.outcome.mapError f := rfl

theorem log_bind (x : Traced ε α) (f : α → Traced ε β) :
    (x >>= f).log =
      match x.outcome with
      | .ok a => x.log ++ (f a).log
      | .error _ => x.log := by
  show (Traced.bind x f).log = _
  rw [Traced.bind]
  split <;> simp_all

theorem outcome_bind (x : Traced ε α) (f : α → Traced ε β) :
    (x >>= f).outcome = x.outcome.bind fun a => (f a).outcome := by
  show (Traced.bind x f).outcome = _
  rw [Traced.bind]
  split <;> simp_all [Except.bind]

theorem outcome_bind_of_ok {x : Traced ε α} {a : α} (h : x.outcome = .ok a)
    (f : α → Traced ε β) : (x >>= f).outcome = (f a).outcome := by
  rw [outcome_bind, h]
  rfl

theorem outcome_mapError_of_ok {x : Traced ε α} {a : α} (h : x.outcome = .ok a) (f : ε → ε') :
    (x.mapError f).outcome = .ok a := by
  rw [outcome_mapError, h]
  rfl

theorem ext_iff {x y : Traced ε α} : x = y ↔ x.log = y.log ∧ x.outcome = y.outcome := by
  cases x
  cases y
  simp

end Traced

end RegisterMapping
