import Mathlib.Data.List.Forall2
import CodeGraph.Proofs.Json.Records
import CodeGraph.Proofs.Toml.Layering
import CodeGraph.Toml.Decode

/-!
# Values read from tables

A settings value that is read from a table is the value that is there, with a text in the place of
every moment (`Toml.plain`, `read_outline`). The tables of settings files are whole, so reading them
never breaks off; what goes wrong is a mismatch (`ReadsTables`).
-/

namespace CodeGraph

namespace Toml

open Json (Decoded Outline Members Origin bind_eq_ok map_eq_ok mapError_eq_ok)

/-! ## Moments as texts -/

mutual

/-- The value with a text in the place of every moment. -/
def plain : Toml → Toml
  | .moment m => .string m.text
  | .array items => .array (plainItems items)
  | .table entries => .table (plainEntries entries)
  | v => v

def plainItems : List Toml → List Toml
  | [] => []
  | v :: rest => v.plain :: plainItems rest

def plainEntries : Table → Table
  | [] => []
  | (k, v) :: rest => (k, v.plain) :: plainEntries rest

end

theorem plainItems_eq_map (items : List Toml) : plainItems items = items.map plain := by
  induction items with
  | nil => rfl
  | cons v items ih => rw [plainItems, ih, List.map_cons]

theorem plainEntries_eq_map (t : Table) : plainEntries t = t.map fun e => (e.1, e.2.plain) := by
  induction t with
  | nil => rfl
  | cons e t ih => rw [plainEntries, ih, List.map_cons]

theorem lookup_plainEntries (t : Table) (k : String) :
    (plainEntries t).lookup k = (t.lookup k).map plain := by
  induction t with
  | nil => rfl
  | cons e t ih =>
    obtain ⟨k', v⟩ := e
    rw [plainEntries, List.lookup_cons, List.lookup_cons]
    cases k == k' with
    | true => rfl
    | false => exact ih

theorem field?_plain (s : Step) (v : Toml) : v.plain.field? s = (v.field? s).map plain := by
  cases v with
  | table t => exact lookup_plainEntries t s.name
  | array items =>
    rw [plain, plainItems_eq_map, field?, field?, Option.map_bind]
    exact Option.bind_congr fun i _ => List.getElem?_map ..
  | _ => rfl

/-- A path leads to the same value with texts in the place of moments. -/
theorem find?_plain (path : List Step) (v : Toml) :
    v.plain.find? path = (v.find? path).map plain := by
  induction path generalizing v with
  | nil => rfl
  | cons s path ih =>
    rw [find?_cons, find?_cons, field?_plain, Option.map_bind]
    rcases v.field? s with _ | w
    · rfl
    · exact ih w

/-! ## Reading what is there -/

/-- Entries in their order are read one after the other, each under its name. -/
theorem readEntries_outline {α : Type} {read : Outline → Decoded α} {t : Table}
    (h : IsWholeTable t) {m m' : NameMap α} (hbefore : ∀ a ∈ m.entries, ∀ e ∈ t, a.1 < e.1)
    (hm : Json.readEntries read m (outlineEntries t) = .ok m') :
    ∃ l, m'.entries = m.entries ++ l ∧
      List.Forall₂ (fun e a => a.1 = e.1 ∧ read e.2.outline = .ok a.2) t l := by
  induction t generalizing m with
  | nil =>
    cases hm
    exact ⟨[], (List.append_nil _).symm, .nil⟩
  | cons e t ih =>
    obtain ⟨k, v⟩ := e
    obtain ⟨-, ht, hlt⟩ := h.of_cons
    obtain ⟨x, hx, hm⟩ := bind_eq_ok.1 hm
    have hk : ∀ a ∈ m.entries, a.1 < k := fun a ha => hbefore a ha _ List.mem_cons_self
    have hinsert : (m.insert k x).entries = m.entries ++ [(k, x)] := NameMap.place_append hk
    have hbefore' : ∀ a ∈ (m.insert k x).entries, ∀ b ∈ t, a.1 < b.1 := by
      intro a ha b hb
      rw [hinsert] at ha
      rcases List.mem_append.1 ha with ha | ha
      · exact hbefore a ha b (List.mem_cons_of_mem _ hb)
      · rw [List.mem_singleton.1 ha]
        exact hlt b hb
    obtain ⟨l, hl, hread⟩ := ih ht hbefore' hm
    refine ⟨(k, x) :: l, ?_, .cons ⟨rfl, mapError_eq_ok.1 hx⟩ hread⟩
    rw [hl, hinsert, List.append_assoc]
    rfl

theorem map_eq_of_forall₂ {α β γ : Type} {f : α → γ} {g : β → γ} {l : List α} {l' : List β}
    (h : List.Forall₂ (fun a b => g b = f a) l l') : l'.map g = l.map f := by
  induction h with
  | nil => rfl
  | cons hab _ ih => rw [List.map_cons, List.map_cons, hab, ih]

/-- Entries whose values are read as they are give the entries with texts for moments. -/
theorem map_eq_plainEntries {α : Type} {read : Outline → Decoded α} {get : α → Toml} {t : Table}
    (h : IsWholeTable t)
    (hread : ∀ e ∈ t, ∀ x, read e.2.outline = .ok x → get x = e.2.plain) {m : NameMap α}
    (hm : Json.readEntries read .empty (outlineEntries t) = .ok m) :
    (m.map fun _ x => get x).entries = plainEntries t := by
  obtain ⟨l, hl, hforall⟩ := readEntries_outline h (by simp [NameMap.empty]) hm
  change m.entries.map (fun a => (a.1, get a.2)) = plainEntries t
  rw [hl, plainEntries_eq_map]
  apply map_eq_of_forall₂
  rw [List.forall₂_iff_get] at hforall ⊢
  refine ⟨hforall.1, ?_⟩
  intro i hi hi'
  obtain ⟨hname, hvalue⟩ := hforall.2 i hi hi'
  exact Prod.ext hname (hread _ (List.get_mem ..) _ hvalue)

/-- Entries of which none comes twice are read as any entries are. -/
theorem readEntries_eq_ok {o : Origin} {ms : Members} {m m' : NameMap Toml}
    (h : readEntries o m ms = .ok m') : Json.readEntries (read o) m ms = .ok m' := by
  cases ms with
  | done => exact h
  | misplaced | broken => cases h
  | cons name v rest =>
    rcases name with f | k
    · cases h
    rw [readEntries] at h
    split at h
    · cases h
    · obtain ⟨x, hx, h⟩ := bind_eq_ok.1 h
      rw [Json.readEntries, hx]
      exact readEntries_eq_ok h

theorem readItems_outline {items : List Toml}
    (h : ∀ v ∈ items, ∀ w, read .table v.outline = .ok w → w = v.plain) {ws : List Toml}
    (hws : readItems .table (outlineItems items) = .ok ws) : ws = plainItems items := by
  induction items generalizing ws with
  | nil =>
    cases hws
    rfl
  | cons v items ih =>
    obtain ⟨hv, hitems⟩ := List.forall_mem_cons.1 h
    rw [outlineItems, readItems] at hws
    obtain ⟨w, hw, hws⟩ := bind_eq_ok.1 hws
    obtain ⟨ws', hws', hws⟩ := bind_eq_ok.1 hws
    cases hws
    rw [plainItems, hv w hw, ih hitems hws']

/-- Entries whose first name does not stand for moments are read one after the other. -/
theorem read_object {ms : Members} {w : Toml} (h : read .table (.object ms) = .ok w) :
    (∃ m, Json.readEntries (read .table) .empty ms = .ok m ∧ w = .table m.entries) ∨
      ∃ v, ms = .cons (.ok momentName) v .done := by
  rw [read] at h
  obtain ⟨_, ho, h⟩ := bind_eq_ok.1 h
  cases ho
  cases ms with
  | done =>
    cases h
    exact .inl ⟨.empty, rfl, rfl⟩
  | misplaced | broken => cases h
  | cons name v rest =>
    rcases name with f | k
    · cases h
    simp only at h
    split at h
    · next hk =>
      obtain ⟨m, -, h⟩ := bind_eq_ok.1 h
      obtain ⟨_, hend, -⟩ := bind_eq_ok.1 h
      cases rest with
      | done => exact .inr ⟨v, by rw [hk]⟩
      | _ => cases hend
    · obtain ⟨x, hx, h⟩ := bind_eq_ok.1 h
      obtain ⟨m, hm, h⟩ := bind_eq_ok.1 h
      cases h
      refine .inl ⟨m, ?_, rfl⟩
      rw [Json.readEntries, hx]
      exact readEntries_eq_ok hm

/-- **A value is read as it is**, with a text in the place of every moment. -/
theorem read_outline {v : Toml} (h : v.IsWhole) {w : Toml} (hw : read .table v.outline = .ok w) :
    w = v.plain := by
  induction h generalizing w with
  | string | double | bool | moment =>
    cases hw
    rfl
  | integer i =>
    rw [outline, read] at hw
    split at hw
    · cases hw
      exact congrArg Toml.integer (Int64.ofInt_toInt i)
    · cases hw
  | @array items whole ih =>
    rw [outline, read] at hw
    obtain ⟨_, ho, hw⟩ := bind_eq_ok.1 hw
    cases ho
    obtain ⟨ws, hws, hw⟩ := bind_eq_ok.1 hw
    cases hw
    rw [plain, readItems_outline ih hws]
  | @table t sorted named whole ih =>
    rcases read_object hw with ⟨m, hm, rfl⟩ | ⟨v, hmoment⟩
    · have hplain : (m.map fun _ x => id x).entries = plainEntries t :=
        map_eq_plainEntries ⟨sorted, whole⟩ (fun e he x => ih e he) hm
      rw [plain, ← hplain]
      simp [NameMap.map]
    · rcases t with _ | ⟨⟨k, x⟩, _ | ⟨e, rest⟩⟩
      · cases hmoment
      · obtain ⟨hk, -⟩ := Members.cons.inj hmoment
        exact absurd (congrArg (fun k => [k]) (Except.ok.inj hk)) named
      · cases hmoment

/-- The entries of a table are read as they are. -/
theorem readTable_outline {v : Toml} (h : v.IsWhole) {t : Table}
    (ht : readTable .table v.outline = .ok t) : Toml.table t = v.plain := by
  obtain ⟨m, hm, rfl⟩ := map_eq_ok.1 ht
  cases h with
  | @table t sorted named whole =>
    have hplain : (m.map fun _ x => id x).entries = plainEntries t :=
      map_eq_plainEntries ⟨sorted, whole⟩ (fun e he x => read_outline (whole e he)) hm
    rw [plain, ← hplain]
    simp [NameMap.map]
  | _ => cases hm

/-- A table of tables is read as it is. -/
theorem readMap_outline {v : Toml} (h : v.IsWhole) {m : NameMap Table}
    (hm : Json.readMap readTable .table v.outline = .ok m) :
    Toml.table (m.map fun _ t => Toml.table t).entries = v.plain := by
  cases h with
  | @table t sorted named whole =>
    rw [plain, ← map_eq_plainEntries ⟨sorted, whole⟩
      (fun e he x => readTable_outline (whole e he)) hm]
  | _ => cases hm

/-! ## Reading does not break off -/

/-- A reading that does not break off: it gives a value, or something does not match. -/
def Unbroken {α : Type} (x : Decoded α) : Prop := ∀ b, x ≠ .error (.text b)

/-- A reader that does not break off in a table. -/
def ReadsTables {α : Type} (read : Origin → Outline → Decoded α) : Prop :=
  ∀ v : Toml, Unbroken (read .table v.outline)

namespace Unbroken

variable {α β : Type} {x : Decoded α}

theorem ok (a : α) : Unbroken (.ok a : Decoded α) := by
  intro b h
  cases h

theorem mismatch (m : Json.Mismatch) : Unbroken (.error (.of m) : Decoded α) := by
  intro b h
  cases h

theorem bind {f : α → Decoded β} (hx : Unbroken x) (hf : ∀ a, x = .ok a → Unbroken (f a)) :
    Unbroken (x >>= f) := by
  intro b h
  cases x with
  | error e => exact hx b (congrArg Except.error (Except.error.inj h))
  | ok a => exact hf a rfl b h

theorem map (f : α → β) (hx : Unbroken x) : Unbroken (x.map f) := by
  intro b h
  cases x with
  | error e => exact hx b (congrArg Except.error (Except.error.inj h))
  | ok a => cases h

theorem within (name : String) (hx : Unbroken x) : Unbroken (x.mapError (.within name)) := by
  intro b h
  cases x with
  | ok a => cases h
  | error f =>
    cases f with
    | text b' => exact hx b' rfl
    | mismatch => cases h

end Unbroken

section

variable {α β : Type} {read : Origin → Outline → Decoded α}

theorem readsTables_readStringAs (expected : String) :
    ReadsTables fun _ => Json.readStringAs expected := by
  intro v b h
  cases v <;> cases h

theorem readsTables_readBool : ReadsTables Json.readBool := by
  intro v b h
  cases v <;> cases h

theorem unbroken_readNatural (bound : Nat) (expected : String) (v : Toml) :
    Unbroken (Json.readNatural bound expected v.outline) := by
  cases v with
  | integer i =>
    intro b h
    rw [outline, Json.readNatural] at h
    split at h <;> cases h
  | _ =>
    intro b h
    cases h

theorem readsTables_readWord : ReadsTables Json.readWord :=
  fun v => (unbroken_readNatural _ _ v).map _

theorem readsTables_readSize : ReadsTables Json.readSize :=
  fun v => (unbroken_readNatural _ _ v).map _

theorem readsTables_readOptional (h : ReadsTables read) : ReadsTables (Json.readOptional read) := by
  intro v
  cases v <;> exact (h _).map _

theorem unbroken_readItems {read : Outline → Decoded α} (h : ∀ v : Toml, Unbroken (read v.outline))
    (items : List Toml) : Unbroken (Json.readItems read (outlineItems items)) := by
  induction items with
  | nil => exact .ok []
  | cons v items ih => exact (h v).bind fun a _ => ih.bind fun l _ => .ok _

theorem readsTables_readList (h : ReadsTables read) : ReadsTables (Json.readList read) := by
  intro v
  cases v with
  | array items => exact unbroken_readItems h items
  | _ =>
    intro b h
    cases h

theorem unbroken_readEntries {read : Outline → Decoded α}
    (h : ∀ v : Toml, Unbroken (read v.outline)) (t : Table) (m : NameMap α) :
    Unbroken (Json.readEntries read m (outlineEntries t)) := by
  induction t generalizing m with
  | nil => exact .ok m
  | cons e t ih => exact ((h e.2).within e.1).bind fun x _ => ih _

theorem readsTables_readMap (h : ReadsTables read) : ReadsTables (Json.readMap read) := by
  intro v
  cases v with
  | table t => exact unbroken_readEntries h t .empty
  | _ =>
    intro b h
    cases h

theorem unbroken_readMoment (v : Toml) : Unbroken (readMoment v.outline) := by
  refine (readsTables_readStringAs _ v).bind fun s _ => ?_
  cases Moment.ofText s with
  | ok m => exact .ok _
  | error e => exact .mismatch _

theorem unbroken_chooseVariant (known : List (String × α)) (name : String) :
    Unbroken (Json.chooseVariant known name) := by
  rw [Json.chooseVariant]
  split
  · exact .ok _
  · exact .mismatch _

theorem readsTables_readVariant (known : List (String × α)) :
    ReadsTables (Json.readVariant known) := by
  intro v
  rcases v with s | i | x | b | m | items | (_ | ⟨⟨k, v⟩, _ | ⟨e, rest⟩⟩)
  case string => exact unbroken_chooseVariant known s
  case table.cons.nil =>
    refine (unbroken_chooseVariant known k).bind fun a _ => ?_
    refine Unbroken.bind ?_ fun _ _ => .ok a
    intro b h
    rcases v with _ | _ | _ | _ | _ | (_ | _) | (_ | _) <;> cases h
  all_goals
    intro b h
    cases h

end

mutual

theorem unbroken_read (v : Toml) : Unbroken (read .table v.outline) := by
  cases v with
  | string | double | bool | moment =>
    intro b h
    cases h
  | integer i =>
    intro b h
    rw [outline, read] at h
    split at h <;> cases h
  | array items => exact (unbroken_readItemsOf items).bind fun ws _ => .ok _
  | table t =>
    rcases t with _ | ⟨⟨k, v⟩, t⟩
    · exact .ok _
    · rw [outline, outlineEntries, read]
      refine Unbroken.bind (.ok Origin.table) fun o ho => ?_
      cases ho
      simp only
      split
      · refine ((unbroken_readMoment v).within k).bind fun m _ => ?_
        refine Unbroken.bind ?_ fun _ _ => .ok m
        intro b h
        cases t <;> cases h
      · exact ((unbroken_read v).within k).bind fun x _ =>
          (unbroken_readEntriesOf t _).bind fun m _ => .ok _

theorem unbroken_readItemsOf (items : List Toml) :
    Unbroken (readItems .table (outlineItems items)) := by
  cases items with
  | nil => exact .ok []
  | cons v items =>
    rw [outlineItems, readItems]
    exact (unbroken_read v).bind fun w _ => (unbroken_readItemsOf items).bind fun ws _ => .ok _

theorem unbroken_readEntriesOf (t : Table) (m : NameMap Toml) :
    Unbroken (readEntries .table m (outlineEntries t)) := by
  cases t with
  | nil => exact .ok m
  | cons e t =>
    obtain ⟨k, v⟩ := e
    rw [outlineEntries, readEntries]
    split
    · exact .mismatch _
    · exact ((unbroken_read v).within k).bind fun x _ => unbroken_readEntriesOf t _

end

mutual

theorem unbroken_skip (v : Toml) : Unbroken (Json.skip v.outline) := by
  cases v with
  | array items => exact unbroken_skipItems items
  | table t => exact unbroken_skipMembers t
  | _ => exact .ok ()

theorem unbroken_skipItems (items : List Toml) :
    Unbroken (Json.skipItems (outlineItems items)) := by
  cases items with
  | nil => exact .ok ()
  | cons v items => exact (unbroken_skip v).bind fun _ _ => unbroken_skipItems items

theorem unbroken_skipMembers (t : Table) : Unbroken (Json.skipMembers (outlineEntries t)) := by
  cases t with
  | nil => exact .ok ()
  | cons e t => exact (unbroken_skip e.2).bind fun _ _ => unbroken_skipMembers t

end

theorem readsTables_readTable : ReadsTables readTable :=
  fun v => (readsTables_readMap unbroken_read v).map _

end Toml

end CodeGraph
