import ExprLang.Eval.Evaluate
import ExprLang.Proofs.Run

/-!
# The entries of a map literal

A map literal evaluates key and value of one entry after the other, and looks for the key among the
entries before only then. So it makes a map of all entries exactly if all of them can be read and no key
is the same as an earlier one (`Setting.evaluateEntries_ok`). Otherwise it stops at one entry: at the
first part that fails, or at the first key that is repeated (`Setting.evaluateEntries_error`).
-/

namespace ExprLang

namespace Value

/-- No key is the same as an earlier one. -/
def Unrepeated (entries : List (Value × Value)) : Prop :=
  entries.Pairwise fun earlier entry => entry.1.same earlier.1 = false

variable {before entries : List (Value × Value)} {entry : Value × Value} {key : Value}

theorem Unrepeated.concat (unrepeated : Unrepeated before)
    (fresh : ¬ (Value.findEntry? entry.1 before).isSome = true) : Unrepeated (before ++ [entry]) := by
  rw [isSome_findEntry?_iff] at fresh
  refine List.pairwise_append.mpr ⟨unrepeated, List.pairwise_singleton _ _, ?_⟩
  intro earlier belongs other last
  obtain rfl := List.mem_singleton.mp last
  exact Bool.eq_false_iff.mpr fun same => fresh ⟨earlier, belongs, same⟩

theorem Unrepeated.not_found (unrepeated : Unrepeated (before ++ entry :: entries)) :
    ¬ (Value.findEntry? entry.1 before).isSome = true := by
  rw [isSome_findEntry?_iff]
  rintro ⟨earlier, belongs, same⟩
  have differs := (List.pairwise_append.mp unrepeated).2.2 earlier belongs entry List.mem_cons_self
  cases differs.symm.trans same

end Value

namespace Setting

variable {setting : Setting} {frame : Frame Value} {entry : Expr × Expr}
  {front entries : List (Expr × Expr)} {next middle later last : Nat} {read : Value × Value}
  {before made : List (Value × Value)} {report other : Diagnostic}

/-- The key and the value of an entry evaluate in order. -/
inductive ReadsEntry (setting : Setting) (frame : Frame Value) (entry : Expr × Expr) (next : Nat)
    (read : Value × Value) (later : Nat) : Prop where
  | intro {middle : Nat} (key : setting.evaluate frame entry.1 next = .ok (read.1, middle))
      (value : setting.evaluate frame entry.2 middle = .ok (read.2, later))

/-- The keys and the values of entries evaluate in order. -/
inductive Reads (setting : Setting) (frame : Frame Value) :
    List (Expr × Expr) → Nat → List (Value × Value) → Nat → Prop where
  | nil {next : Nat} : Reads setting frame [] next [] next
  | cons {entry : Expr × Expr} {entries : List (Expr × Expr)} {read : Value × Value}
      {made : List (Value × Value)} {next middle later : Nat}
      (first : ReadsEntry setting frame entry next read middle)
      (further : Reads setting frame entries middle made later) :
      Reads setting frame (entry :: entries) next (read :: made) later

/-- The key of an entry fails, or its value does. -/
inductive FailsToRead (setting : Setting) (frame : Frame Value) (report : Diagnostic)
    (entry : Expr × Expr) (next : Nat) : Prop where
  | key (failed : setting.evaluate frame entry.1 next = .error report)
  | value {key : Value} {middle : Nat}
      (read : setting.evaluate frame entry.1 next = .ok (key, middle))
      (failed : setting.evaluate frame entry.2 middle = .error report)

/-- An entry is read, and its key is the same as an earlier one. -/
inductive Repeats (setting : Setting) (frame : Frame Value) (report : Diagnostic)
    (before : List (Value × Value)) (entry : Expr × Expr) (next : Nat) : Prop where
  | intro {read earlier : Value × Value} {later : Nat}
      (reads : setting.ReadsEntry frame entry next read later) (belongs : earlier ∈ before)
      (same : read.1.same earlier.1 = true)
      (reported : report = (Fault.keyRepeated read.1.text).reportAt entry.1.loc)

/-- Behind the entries that were made before, entries are read up to one at which something happens,
and no key is repeated until then. -/
inductive Stops (setting : Setting) (frame : Frame Value) (before : List (Value × Value))
    (entries : List (Expr × Expr)) (next : Nat)
    (happens : List (Value × Value) → Expr × Expr → Nat → Prop) : Prop where
  | intro {front behind : List (Expr × Expr)} {entry : Expr × Expr} {made : List (Value × Value)}
      {middle : Nat} (split : entries = front ++ entry :: behind)
      (reads : setting.Reads frame front next made middle)
      (unrepeated : Value.Unrepeated (before ++ made))
      (held : happens (before ++ made) entry middle)

theorem Reads.length_eq (reads : setting.Reads frame entries next made later) :
    made.length = entries.length := by
  induction reads with
  | nil => rfl
  | cons _ _ ih => rw [List.length_cons, List.length_cons, ih]

variable {happens : List (Value × Value) → Expr × Expr → Nat → Prop}

/-- What happens behind an entry happens behind that entry and those in front of it. -/
theorem Stops.further (reads : setting.ReadsEntry frame entry next read middle)
    (stops : setting.Stops frame (before ++ [read]) entries middle happens) :
    setting.Stops frame before (entry :: entries) next happens := by
  obtain ⟨split, further, unrepeated, held⟩ := stops
  rw [← List.append_cons] at unrepeated held
  exact ⟨congrArg _ split, .cons reads further, unrepeated, held⟩

/-! ## One entry -/

theorem reads_or_fails (setting : Setting) (frame : Frame Value) (entry : Expr × Expr) (next : Nat) :
    (∃ read later, setting.ReadsEntry frame entry next read later) ∨
      ∃ report, setting.FailsToRead frame report entry next := by
  cases key : setting.evaluate frame entry.1 next with
  | error report => exact .inr ⟨report, .key key⟩
  | ok done =>
    cases value : setting.evaluate frame entry.2 done.2 with
    | error report => exact .inr ⟨report, .value key value⟩
    | ok made => exact .inl ⟨(done.1, made.1), made.2, key, value⟩

theorem ReadsEntry.unique {second : Value × Value}
    (reads : setting.ReadsEntry frame entry next read later)
    (others : setting.ReadsEntry frame entry next second last) : read = second ∧ later = last := by
  obtain ⟨key, value⟩ := reads
  obtain ⟨otherKey, otherValue⟩ := others
  obtain ⟨keys, rfl⟩ := Prod.mk.inj (Except.ok.inj (key.symm.trans otherKey))
  obtain ⟨values, rfl⟩ := Prod.mk.inj (Except.ok.inj (value.symm.trans otherValue))
  exact ⟨Prod.ext keys values, rfl⟩

theorem ReadsEntry.not_fails (reads : setting.ReadsEntry frame entry next read later) :
    ¬ setting.FailsToRead frame report entry next := by
  obtain ⟨key, value⟩ := reads
  rintro (failed | ⟨otherKey, failed⟩)
  · cases key.symm.trans failed
  · obtain ⟨rfl, rfl⟩ := Prod.mk.inj (Except.ok.inj (key.symm.trans otherKey))
    cases value.symm.trans failed

theorem evaluateEntries_of_reads (reads : setting.ReadsEntry frame entry next read later)
    (before : List (Value × Value)) (entries : List (Expr × Expr)) :
    setting.evaluateEntries frame before (entry :: entries) next =
      if (Value.findEntry? read.1 before).isSome then
        .error ((Fault.keyRepeated read.1.text).reportAt entry.1.loc)
      else setting.evaluateEntries frame (before ++ [read]) entries later := by
  obtain ⟨key, value⟩ := reads
  rw [evaluateEntries, Run.bind_of_ok key, Run.bind_of_ok value]
  split <;> rfl

theorem evaluateEntries_of_fails (fails : setting.FailsToRead frame report entry next)
    (before : List (Value × Value)) (entries : List (Expr × Expr)) :
    setting.evaluateEntries frame before (entry :: entries) next = .error report := by
  rcases fails with failed | ⟨read, failed⟩
  · rw [evaluateEntries, Run.bind_of_error failed]
  · rw [evaluateEntries, Run.bind_of_ok read, Run.bind_of_error failed]

/-! ## All entries -/

/-- Entries that can be read and have no key twice are made, and the evaluation goes on behind them. -/
theorem evaluateEntries_append (reads : setting.Reads frame front next made middle)
    (unrepeated : Value.Unrepeated (before ++ made)) (entries : List (Expr × Expr)) :
    setting.evaluateEntries frame before (front ++ entries) next =
      setting.evaluateEntries frame (before ++ made) entries middle := by
  induction reads generalizing before with
  | nil => rw [List.append_nil, List.nil_append]
  | @cons _ _ read _ _ _ _ first _ ih =>
    have fresh := unrepeated.not_found
    rw [List.append_cons] at unrepeated
    rw [List.cons_append, evaluateEntries_of_reads first, if_neg fresh, ih unrepeated,
      ← List.append_cons]

/-- A map literal makes all its entries in order, exactly if all can be read and no key is repeated. -/
theorem evaluateEntries_ok (unrepeated : Value.Unrepeated before) :
    setting.evaluateEntries frame before entries next = .ok (made, later) ↔
      ∃ added, setting.Reads frame entries next added later ∧ made = before ++ added ∧
        Value.Unrepeated made := by
  constructor
  · intro ok
    induction entries generalizing before next with
    | nil =>
      obtain ⟨rfl, rfl⟩ := Run.pure_ok.mp ok
      exact ⟨[], .nil, (List.append_nil _).symm, unrepeated⟩
    | cons entry entries ih =>
      rcases reads_or_fails setting frame entry next with ⟨read, middle, reads⟩ | ⟨report, fails⟩
      · rw [evaluateEntries_of_reads reads] at ok
        split at ok
        · cases ok
        next fresh =>
          obtain ⟨added, further, rfl, others⟩ := ih (unrepeated.concat fresh) ok
          exact ⟨read :: added, .cons reads further, (List.append_cons ..).symm, others⟩
      · cases (evaluateEntries_of_fails fails before entries).symm.trans ok
  · rintro ⟨added, reads, rfl, others⟩
    have all := evaluateEntries_append reads others []
    rwa [List.append_nil] at all

/-- A map literal fails exactly where a part of an entry fails or a key is repeated, if all entries in
front of that one can be read and have no key twice. -/
theorem evaluateEntries_error (unrepeated : Value.Unrepeated before) :
    setting.evaluateEntries frame before entries next = .error report ↔
      setting.Stops frame before entries next (fun _ => setting.FailsToRead frame report) ∨
        setting.Stops frame before entries next (setting.Repeats frame report) := by
  constructor
  · intro failed
    induction entries generalizing before next with
    | nil => cases failed
    | cons entry entries ih =>
      rcases reads_or_fails setting frame entry next with ⟨read, middle, reads⟩ | ⟨other, fails⟩
      · rw [evaluateEntries_of_reads reads] at failed
        split at failed
        next repeats =>
          obtain ⟨earlier, belongs, same⟩ := Value.isSome_findEntry?_iff.mp repeats
          have here : setting.Repeats frame report before entry next :=
            ⟨reads, belongs, same, (Except.error.inj failed).symm⟩
          exact .inr ⟨rfl, .nil, by rwa [List.append_nil], by rwa [List.append_nil]⟩
        next fresh =>
          exact (ih (unrepeated.concat fresh) failed).imp (.further reads)
            (.further reads)
      · obtain rfl :=
          Except.error.inj ((evaluateEntries_of_fails fails before entries).symm.trans failed)
        exact .inl ⟨rfl, .nil, by rwa [List.append_nil], fails⟩
  · rintro (⟨rfl, reads, others, fails⟩ | ⟨rfl, reads, others, stopped⟩)
    · rw [evaluateEntries_append reads others, evaluateEntries_of_fails fails]
    · obtain ⟨read, belongs, same, rfl⟩ := stopped
      rw [evaluateEntries_append reads others, evaluateEntries_of_reads read,
        if_pos (Value.isSome_findEntry?_iff.mpr ⟨_, belongs, same⟩)]

/-- What happens behind one more entry happens at that entry, or that is read and it happens later. -/
theorem Stops.cons_inv (stops : setting.Stops frame before (entry :: entries) next happens) :
    happens before entry next ∨ ∃ read later, setting.ReadsEntry frame entry next read later ∧
      setting.Stops frame (before ++ [read]) entries later happens := by
  obtain ⟨split, reads, unrepeated, held⟩ := stops
  cases reads with
  | nil =>
    obtain ⟨rfl, -⟩ := List.cons.inj split
    rw [List.append_nil] at held
    exact .inl held
  | cons first further =>
    obtain ⟨rfl, others⟩ := List.cons.inj split
    rw [List.append_cons] at unrepeated held
    exact .inr ⟨_, _, first, others, further, unrepeated, held⟩

/-- A key that is repeated is not behind an entry that cannot be read, nor in front of one. -/
theorem Stops.not_fails
    (repeats : setting.Stops frame before entries next (setting.Repeats frame report)) :
    ¬ setting.Stops frame before entries next fun _ => setting.FailsToRead frame other := by
  intro fails
  induction entries generalizing before next with
  | nil =>
    obtain ⟨split, -, -, -⟩ := repeats
    cases List.append_eq_nil_iff.mp split.symm with
    | intro _ none => cases none
  | cons entry entries ih =>
    rcases fails.cons_inv with failed | ⟨read, later, reads, fails⟩
    · rcases repeats.cons_inv with ⟨reads, -, -, -⟩ | ⟨read, later, reads, -⟩ <;>
        exact reads.not_fails failed
    · rcases repeats.cons_inv with ⟨others, belongs, same, -⟩ | ⟨second, last, others, repeats⟩
      · obtain ⟨rfl, rfl⟩ := reads.unique others
        obtain ⟨-, -, unrepeated, -⟩ := fails
        rw [← List.append_cons] at unrepeated
        exact unrepeated.not_found (Value.isSome_findEntry?_iff.mpr ⟨_, belongs, same⟩)
      · obtain ⟨rfl, rfl⟩ := reads.unique others
        exact ih repeats fails

end Setting

end ExprLang
