import RequestScheduler.Config.Reader
import RequestScheduler.Config.Writer
import RequestScheduler.Proofs.Lines

/-!
# A written configuration is read back

A configuration is written as a document of plain lines, one for each field that it has; an absent
bound is no field. Each entry of the document sets its field to the number that was written, over
all 64 bits, and what has no entry keeps its default. So reading undoes writing
(`read_toToml`), but for a bound of zero, which validation refuses after the reading.
-/

namespace RequestScheduler.Config

open Toml (Entry Statement)

/-- The fields that a configuration has. An absent bound is none of them. -/
def fields (c : Config) : List (Field × UInt64) :=
  (c.maxConcurrentReads.map fun n => (Field.reads, n)).toList ++ [(.timeout, c.shutdownTimeoutMs)]

/-- A field with its key, as it is written. -/
def written (f : Field × UInt64) : String × Nat := (f.1.key, f.2.toNat)

/-! ### Writing -/

theorem toList_line (key : String) (n : UInt64) :
    (line key n).toList = Toml.assignment key n.toNat := by
  simp [line, Toml.assignment, Nat.repr_eq_ofList_toDigits]

theorem toToml_eq (c : Config) :
    c.toToml = String.ofList (Toml.document (c.fields.map written)) := by
  rw [← String.toList_inj, String.toList_ofList]
  cases hn : c.maxConcurrentReads with
  | none => simp [toToml, hn, toList_line, fields, written, Toml.document, Field.key]
  | some n => simp [toToml, hn, toList_line, fields, written, Toml.document, Field.key]

theorem isBare_key (field : Field) : Toml.IsBare field.key := by
  have hbare : field.key.toList.all Toml.isBare = true := by cases field <;> decide
  exact ⟨by cases field <;> decide, List.all_eq_true.mp hbare⟩

/-- No field is written twice. -/
theorem nodup_keys (c : Config) : ((c.fields.map written).map Prod.fst).Nodup := by
  cases hn : c.maxConcurrentReads with
  | none => simp [fields, hn]
  | some n =>
      have hne : Field.reads.key ≠ Field.timeout.key := by decide
      simp [fields, hn, written, hne]

theorem read?_toToml (c : Config) :
    ∃ sts, Toml.read? c.toToml = some sts ∧ Toml.clash? sts = none ∧
      (Toml.entries sts).map Entry.field = (c.fields.map written).map Toml.plain := by
  rw [toToml_eq]
  refine Toml.read?_document (fun f hf => ?_) c.nodup_keys
  obtain ⟨g, -, rfl⟩ := List.mem_map.mp hf
  exact isBare_key g.1

/-! ### Reading -/

@[simp] theorem Field.ofKey?_key (field : Field) : Field.ofKey? field.key = some field := by
  cases field <;> decide

/-- Every number of 64 bits is read as itself, with or without room for a sign. -/
theorem numberOfInt?_toNat (n : UInt64) : numberOfInt? n.toNat = .ok n := by
  have hlt : n.toNat < UInt64.size := n.toNat_lt_size
  rw [numberOfInt?, if_pos (by omega), Int.toNat_natCast, UInt64.ofNat_toNat]

theorem accept_of_field {e : Entry} {f : Field × UInt64} (h : e.field = Toml.plain (written f))
    (c : Config) : accept c e = .ok (c.set f.1 f.2) := by
  have hname : e.key.name = f.1.key := congrArg Prod.fst h
  have hgiven : e.given = .value (.integer f.2.toNat) := congrArg Prod.snd h
  simp only [accept, hname, Field.ofKey?_key, hgiven, number?, numberOfInt?_toNat]

/-- Entries that give numbers of 64 bits to fields are all accepted, in their order. -/
theorem foldlM_accept {es : List Entry} {fs : List (Field × UInt64)}
    (h : es.map Entry.field = (fs.map written).map Toml.plain) (c : Config) :
    es.foldlM accept c = .ok (fs.foldl (fun c f => c.set f.1 f.2) c) := by
  induction es generalizing fs c with
  | nil =>
      cases fs with
      | nil => rfl
      | cons => cases h
  | cons e es ih =>
      cases fs with
      | nil => cases h
      | cons f fs =>
          obtain ⟨hfirst, hrest⟩ := List.cons.inj h
          rw [List.foldlM_cons, accept_of_field hfirst]
          exact ih hrest (c.set f.1 f.2)

/-- The fields of a configuration, set one after the other, make it out of the default. -/
theorem foldl_fields (c : Config) : c.fields.foldl (fun c f => c.set f.1 f.2) {} = c := by
  obtain ⟨reads, timeout⟩ := c
  cases reads <;> rfl

theorem ofStatements_of_field {c : Config} {sts : List Statement} (hclash : Toml.clash? sts = none)
    (h : (Toml.entries sts).map Entry.field = (c.fields.map written).map Toml.plain) :
    ofStatements sts = .ok c := by
  rw [ofStatements, hclash]
  simp only [foldlM_accept h, foldl_fields]

/-- What is written is read back, whatever the numbers are: the document has one entry for each
field of the configuration, with the number that the field has, and none for an absent bound. Only
a configuration with a bound of zero is refused, as invalid in that field. -/
theorem read_toToml (c : Config) :
    (∃ sts, Toml.read? c.toToml = some sts ∧ (Toml.entries sts).map Entry.field =
      c.fields.map fun f => (f.1.key, .value (.integer f.2.toNat))) ∧
    read c.toToml =
      if c.maxConcurrentReads = some 0 then
        .error (.invalid { field := readsKey, reason := "must be greater than zero" })
      else .ok c := by
  obtain ⟨sts, hread, hclash, hfields⟩ := c.read?_toToml
  refine ⟨⟨sts, hread, by rw [hfields, List.map_map]; rfl⟩, ?_⟩
  simp only [read, hread, ofStatements_of_field hclash hfields]
  by_cases hzero : c.maxConcurrentReads = some 0
  · simp only [validate, hzero, if_true]
  · simp only [validate, hzero, if_false]

end RequestScheduler.Config
