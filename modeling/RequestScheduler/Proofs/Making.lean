import RequestScheduler.Config.Reader
import RequestScheduler.Config.Script
import RequestScheduler.Manager.Script
import RequestScheduler.Proofs.Pool

/-!
# From a configuration to a manager

Validation and the pool of permits each have their own idea of a bound. Validation refuses zero, the
pool refuses what is beyond `Permits.maximum`. Every configuration that is read, or built from a
valid one, is valid; a manager is made of exactly those whose bound the pool can hold as well
(`State.made_iff_fits`). The others are refused by the pool alone (`State.unmade_though_valid`).
-/

namespace RequestScheduler

namespace Config

variable {c c' : Config}

/-- Whether a pool of permits can be as large as the bound asks. -/
def Fits (c : Config) : Prop := ∀ n, c.maxConcurrentReads = some n → n.toNat ≤ Permits.maximum

/-- The bound as a number of permits. -/
def bound (c : Config) : Option Nat := c.maxConcurrentReads.map UInt64.toNat

theorem validate_eq_ok_iff : c.validate = .ok () ↔ c.maxConcurrentReads ≠ some 0 := by
  simp [validate]

/-! ### What reading and building end with -/

theorem validate_of_read {source : String} (h : read source = .ok c) : c.validate = .ok () := by
  unfold read at h
  split at h
  case h_1 => cases h
  case h_2 =>
    split at h
    case h_1 => cases h
    case h_2 =>
      split at h
      case h_1 hv => exact Except.ok.inj h ▸ hv
      case h_2 => cases h

theorem validate_of_withMaxConcurrentReads {limit : UInt64}
    (h : c.withMaxConcurrentReads limit = .ok c') : c'.validate = .ok () := by
  unfold withMaxConcurrentReads at h
  split at h
  case isTrue => cases h
  case isFalse hz =>
    rw [← Except.ok.inj h]
    exact validate_eq_ok_iff.mpr fun heq => hz (Option.some.inj heq)

@[simp] theorem validate_withShutdownTimeout (d : Duration) (c : Config) :
    (c.withShutdownTimeout d).validate = c.validate := rfl

theorem validate_perform (step : Step) (h : c.validate = .ok ()) :
    (c.perform step).2.validate = .ok () := by
  cases step with
  | maxConcurrentReads limit =>
    simp only [perform]
    split
    case h_1 hset => exact validate_of_withMaxConcurrentReads hset
    case h_2 => exact h
  | shutdownTimeout d => exact h
  | unknown => exact h

theorem validate_run (steps : List Step) (h : c.validate = .ok ()) :
    (c.run steps).2.validate = .ok () := by
  induction steps generalizing c with
  | nil => exact h
  | cons step rest ih => exact ih (validate_perform step h)

/-! ### What becomes of a valid configuration -/

theorem permits_of_invalid {e : InvalidField} (h : c.validate = .error e) :
    c.permits = .error (.invalid e) := by
  simp only [permits, h]

theorem permits_of_fits (h : c.validate = .ok ()) (hf : c.Fits) :
    c.permits = .ok (Permits.ofBound c.bound) := by
  simp only [permits, h, bound]
  cases hn : c.maxConcurrentReads with
  | none => rfl
  | some n => simp only [Nat.not_lt.mpr (hf n hn), if_false, Option.map_some]; rfl

theorem permits_of_not_fits (h : c.validate = .ok ()) (hf : ¬c.Fits) :
    c.permits = .error .tooManyPermits := by
  have ⟨n, hn, hlt⟩ : ∃ n, c.maxConcurrentReads = some n ∧ Permits.maximum < n.toNat := by
    simpa [Fits] using hf
  simp only [permits, h, hn, hlt, if_true]

end Config

namespace Manager.State

variable {D : Type} {c : Config}

/-- The manager that a configuration is for. -/
def fresh (c : Config) : State D := { machine := .start (Permits.ofBound c.bound), config := c }

/-- A configuration ends in one of three ways: it is refused, the pool cannot hold its bound, or
its manager is made. -/
theorem make_cases (c : Config) :
    (∃ e, c.validate = .error e ∧ make (D := D) c = .error (.invalid e)) ∨
    (c.validate = .ok () ∧ ¬c.Fits ∧ make (D := D) c = .error .tooManyPermits) ∨
    (c.validate = .ok () ∧ c.Fits ∧ make (D := D) c = .ok (fresh c)) := by
  cases hv : c.validate with
  | error e => exact .inl ⟨e, rfl, by simp only [make, Config.permits_of_invalid hv]⟩
  | ok =>
    by_cases hf : c.Fits
    · exact .inr (.inr ⟨rfl, hf, by simp only [make, Config.permits_of_fits hv hf]; rfl⟩)
    · exact .inr (.inl ⟨rfl, hf, by simp only [make, Config.permits_of_not_fits hv hf]⟩)

theorem make_eq_ok_iff {s : State D} :
    make c = .ok s ↔ c.validate = .ok () ∧ c.Fits ∧ s = fresh c := by
  obtain ⟨e, hv, hm⟩ | ⟨hv, hf, hm⟩ | ⟨hv, hf, hm⟩ := make_cases (D := D) c
  · simp [hm, hv]
  · simp [hm, hf]
  · simp [hm, hv, hf, eq_comm]

theorem make_eq_invalid_iff {e : InvalidField} :
    make (D := D) c = .error (.invalid e) ↔ c.validate = .error e := by
  obtain ⟨e, hv, hm⟩ | ⟨hv, -, hm⟩ | ⟨hv, -, hm⟩ := make_cases (D := D) c
  all_goals simp [hm, hv]

theorem make_eq_tooManyPermits_iff :
    make (D := D) c = .error .tooManyPermits ↔ c.validate = .ok () ∧ ¬c.Fits := by
  obtain ⟨e, hv, hm⟩ | ⟨hv, hf, hm⟩ | ⟨hv, hf, hm⟩ := make_cases (D := D) c
  all_goals simp [*]

/-- A manager is made of exactly the valid configurations whose bound a pool of permits can hold:
it is at its start, with as many permits as the bound says. An invalid configuration is refused with
the error of its validation. A valid one is never refused so, and that includes whatever is read and
whatever is built from a valid configuration; if its bound is too large, the pool refuses it. -/
theorem made_iff_fits (c : Config) :
    (∀ s : State D, make c = .ok s ↔ c.validate = .ok () ∧ c.Fits ∧ s = fresh c) ∧
    (∀ e, make (D := D) c = .error (.invalid e) ↔ c.validate = .error e) ∧
    (make (D := D) c = .error .tooManyPermits ↔ c.validate = .ok () ∧ ¬c.Fits) ∧
    (∀ source, Config.read source = .ok c → c.validate = .ok ()) ∧
    ∀ steps origin, origin.validate = .ok () → (Config.run steps origin).2 = c →
      c.validate = .ok () :=
  ⟨fun _ => make_eq_ok_iff, fun _ => make_eq_invalid_iff, make_eq_tooManyPermits_iff,
    fun _ => Config.validate_of_read, fun steps _ ho heq => heq ▸ Config.validate_run steps ho⟩

/-- The largest bound that a pool of permits can hold. -/
def widest : Config := { maxConcurrentReads := some 0x1FFFFFFFFFFFFFFF }

/-- The largest bound is built by one step, and its manager is made. -/
theorem made_widest :
    (Config.run [.maxConcurrentReads 0x1FFFFFFFFFFFFFFF] {}).2 = widest ∧
    widest.validate = .ok () ∧ make (D := Unit) widest = .ok (fresh widest) := by
  have hbuilt : (Config.run [.maxConcurrentReads 0x1FFFFFFFFFFFFFFF] {}).2 = widest := rfl
  have hfits : widest.Fits := by
    intro n hn
    cases hn
    decide
  obtain ⟨hmade, -, -, -, hvalid⟩ := made_iff_fits (D := Unit) widest
  have hv := hvalid _ {} (by rfl) hbuilt
  exact ⟨hbuilt, hv, (hmade _).mpr ⟨hv, hfits, rfl⟩⟩

/-- One permit more than a pool can hold. -/
def overwide : Config := { maxConcurrentReads := some 0x2000000000000000 }

/-- The bound that is too large is read, built and valid. Nothing but the pool refuses it. -/
theorem unmade_though_valid :
    Config.read "max_concurrent_reads = 2305843009213693952" = .ok overwide ∧
    (Config.run [.maxConcurrentReads 0x2000000000000000] {}).2 = overwide ∧
    overwide.validate = .ok () ∧ make (D := Unit) overwide = .error .tooManyPermits := by
  have hread : (Config.read "max_concurrent_reads = 2305843009213693952").toOption =
      some overwide := by decide +kernel
  refine ⟨?_, rfl, rfl, rfl⟩
  generalize Config.read "max_concurrent_reads = 2305843009213693952" = r at hread ⊢
  cases r with
  | error => cases hread
  | ok => exact congrArg Except.ok (Option.some.inj hread)

end Manager.State

end RequestScheduler
