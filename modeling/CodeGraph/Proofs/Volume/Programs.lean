import CodeGraph.Volume.Access

/-!
# Programs that work on files

How a program with a state runs step by step (`run_bind`, `run_tryCatch`), and what an operation on
files does that meets a fault or none (`FileM.run_reading`, `FileM.run_writing`).
-/

namespace CodeGraph

section Run

variable {ε σ α β : Type}

@[simp] theorem run_pure (a : α) (s : σ) :
    (pure a : ExceptT ε (StateM σ) α).run.run s = (.ok a, s) := rfl

@[simp] theorem run_get (s : σ) :
    (MonadState.get : ExceptT ε (StateM σ) σ).run.run s = (.ok s, s) := rfl

@[simp] theorem run_set (s s' : σ) :
    (MonadStateOf.set s' : ExceptT ε (StateM σ) PUnit).run.run s = (.ok ⟨⟩, s') := rfl

theorem run_bind (x : ExceptT ε (StateM σ) α) (f : α → ExceptT ε (StateM σ) β) (s : σ) :
    (x >>= f).run.run s =
      match x.run.run s with
      | (.ok a, s') => (f a).run.run s'
      | (.error e, s') => (.error e, s') := by
  have hrun : (x >>= f).run.run s = ((x.run.run s).1 |> fun r =>
      match r with
      | .ok a => (f a).run.run (x.run.run s).2
      | .error e => (.error e, (x.run.run s).2)) := by
    change (match (x.run.run s).1 with | .ok a => f a | .error e => throw e).run.run
      (x.run.run s).2 = _
    rcases (x.run.run s).1 with e | a <;> rfl
  rw [hrun]
  rcases x.run.run s with ⟨e | a, s'⟩ <;> rfl

theorem run_bind_ok {x : ExceptT ε (StateM σ) α} {f : α → ExceptT ε (StateM σ) β} {s s' : σ}
    {a : α} (h : x.run.run s = (.ok a, s')) : (x >>= f).run.run s = (f a).run.run s' := by
  rw [run_bind, h]

theorem run_bind_error {x : ExceptT ε (StateM σ) α} {f : α → ExceptT ε (StateM σ) β} {s s' : σ}
    {e : ε} (h : x.run.run s = (.error e, s')) : (x >>= f).run.run s = (.error e, s') := by
  rw [run_bind, h]

/-- What a program answers is told by the answer of its first part, if what follows changes the state
alike after every answer. -/
theorem run_bind_answer {x : ExceptT ε (StateM σ) α} {f : α → ExceptT ε (StateM σ) β}
    {g : α → Except ε β} {r : Except ε α} {s s' : σ} (hx : x.run.run s = (r, s'))
    (hf : ∀ a, (f a).run.run s' = (g a, s')) : (x >>= f).run.run s = (r >>= g, s') := by
  rcases r with e | a
  · rw [run_bind_error hx]
    rfl
  · rw [run_bind_ok hx, hf]
    rfl

theorem run_map_answer {x : ExceptT ε (StateM σ) α} {r : Except ε α} {s s' : σ}
    (hx : x.run.run s = (r, s')) (f : α → β) :
    (do return f (← x) : ExceptT ε (StateM σ) β).run.run s = (r.map f, s') := by
  rw [run_bind, hx]
  cases r <;> rfl

/-- What follows an operation and only wraps its answer changes nothing. -/
theorem run_bind_pure (x : ExceptT ε (StateM σ) α) (f : α → β) (s : σ) :
    ((do return f (← x) : ExceptT ε (StateM σ) β).run.run s).2 = (x.run.run s).2 := by
  rw [run_bind]
  rcases x.run.run s with ⟨e | a, s'⟩ <;> rfl

theorem exists_of_run_bind {x : ExceptT ε (StateM σ) α} {f : α → ExceptT ε (StateM σ) β}
    {s s' : σ} {b : β} (h : (x >>= f).run.run s = (.ok b, s')) :
    ∃ a s₁, x.run.run s = (.ok a, s₁) ∧ (f a).run.run s₁ = (.ok b, s') := by
  rcases hx : x.run.run s with ⟨e | a, s₁⟩
  · rw [run_bind_error hx] at h
    cases h
  · rw [run_bind_ok hx] at h
    exact ⟨a, s₁, rfl, h⟩

theorem run_tryCatch (x : ExceptT ε (StateM σ) α) (f : ε → ExceptT ε (StateM σ) α) (s : σ) :
    (tryCatch x f).run.run s =
      match x.run.run s with
      | (.ok a, s') => (.ok a, s')
      | (.error e, s') => (f e).run.run s' := by
  change (match (x.run.run s).1 with | .ok a => pure a | .error e => f e).run.run
      (x.run.run s).2 = _
  rcases x.run.run s with ⟨e | a, s'⟩ <;> rfl

end Run

/-! ## Operations on files -/

namespace FileM

variable {α : Type} {op : Volume → Except OsError α} {write : Volume → Except OsError Volume}
  {torn : Nat → Volume → Volume} {short : Volume → Volume} {d : Drive}

theorem reading_volume : ((reading op).run d).2.volume = d.volume := by
  rcases d with ⟨v, _ | ⟨_ | f, faults⟩⟩ <;> rfl

theorem reading_ok {a : α} (h : ((reading op).run d).1 = .ok a) : op d.volume = .ok a := by
  rcases d with ⟨v, _ | ⟨_ | f, faults⟩⟩
  · exact h
  · exact h
  · cases h

theorem reading_faultless (h : d.faults = []) : (reading op).run d = (op d.volume, d) := by
  rcases d with ⟨v, _ | ⟨f, faults⟩⟩
  · rfl
  · cases h

theorem run_writing :
    (writing write torn short).run d =
      match d.faults.head?.join with
      | some f =>
        (.error f.error, ⟨(f.written.map fun n => torn n d.volume).getD d.volume, d.faults.tail⟩)
      | none =>
        match write d.volume with
        | .ok v => (.ok (), ⟨v, d.faults.tail⟩)
        | .error e => (.error e, ⟨short d.volume, d.faults.tail⟩) := by
  have hfault : nextFault.run d = (d.faults.head?.join, { d with faults := d.faults.tail }) := rfl
  rw [writing, StateT.run_bind, hfault]
  rcases d.faults.head?.join with _ | f
  · change (match write d.volume with
      | .ok v => do
        set (⟨v, d.faults.tail⟩ : Drive)
        return .ok ()
      | .error e => do
        set (⟨short d.volume, d.faults.tail⟩ : Drive)
        return .error e : FileM (Except OsError Unit)).run ⟨d.volume, d.faults.tail⟩ = _
    rcases write d.volume with e | v <;> rfl
  · rfl

/-- A writing operation does what it should, or it fails and may leave something torn or short of it
behind. -/
theorem writing_outcome (write : Volume → Except OsError Volume) (torn : Nat → Volume → Volume)
    (short : Volume → Volume) (d : Drive) :
    (∃ v, write d.volume = .ok v ∧ ((writing write torn short).run d).1 = .ok () ∧
      ((writing write torn short).run d).2.volume = v) ∨
    ∃ e, ((writing write torn short).run d).1 = .error e ∧
      (((writing write torn short).run d).2.volume = d.volume ∨
        (∃ n, ((writing write torn short).run d).2.volume = torn n d.volume) ∨
        write d.volume = .error e ∧
          ((writing write torn short).run d).2.volume = short d.volume) := by
  rw [run_writing]
  rcases d.faults.head?.join with _ | ⟨e, _ | n⟩
  · rcases hwrite : write d.volume with e | v
    · exact .inr ⟨e, rfl, .inr (.inr ⟨rfl, rfl⟩)⟩
    · exact .inl ⟨v, rfl, rfl, rfl⟩
  · exact .inr ⟨e, rfl, .inl rfl⟩
  · exact .inr ⟨e, rfl, .inr (.inl ⟨n, rfl⟩)⟩

/-- A writing operation that is not made by halves does what it should, or it fails and may leave
something torn behind. -/
theorem writing_cases (write : Volume → Except OsError Volume) (torn : Nat → Volume → Volume)
    (d : Drive) :
    (∃ v, write d.volume = .ok v ∧ ((writing write torn).run d).1 = .ok () ∧
      ((writing write torn).run d).2.volume = v) ∨
    ∃ e, ((writing write torn).run d).1 = .error e ∧
      (((writing write torn).run d).2.volume = d.volume ∨
        ∃ n, ((writing write torn).run d).2.volume = torn n d.volume) := by
  rcases writing_outcome write torn (fun v => v) d with h | ⟨e, he, h | h | ⟨-, h⟩⟩
  · exact .inl h
  · exact .inr ⟨e, he, .inl h⟩
  · exact .inr ⟨e, he, .inr h⟩
  · exact .inr ⟨e, he, .inl h⟩

theorem writing_faultless (h : d.faults = []) :
    (writing write torn short).run d =
      match write d.volume with
      | .ok v => (.ok (), ⟨v, []⟩)
      | .error e => (.error e, { d with volume := short d.volume }) := by
  rw [run_writing, h]
  rcases d with ⟨v, faults⟩
  obtain rfl : faults = [] := h
  rfl

theorem run_reading (op : Volume → Except OsError α) :
    (reading op).run d =
      (match d.faults.head?.join with
        | some f => .error f.error
        | none => op d.volume, { d with faults := d.faults.tail }) := by
  rcases d with ⟨v, _ | ⟨_ | f, faults⟩⟩ <;> rfl

theorem faults_writing (write : Volume → Except OsError Volume) (torn : Nat → Volume → Volume)
    (short : Volume → Volume) (d : Drive) :
    ((writing write torn short).run d).2.faults = d.faults.tail := by
  rw [run_writing]
  rcases d.faults.head?.join with _ | f
  · rcases write d.volume with e | v
    · rfl
    · rfl
  · rfl

end FileM

end CodeGraph
