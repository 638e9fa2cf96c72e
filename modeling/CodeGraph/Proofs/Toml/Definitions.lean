import Mathlib.Data.List.Infix
import CodeGraph.Proofs.Toml.Layering
import CodeGraph.Toml.Reader

/-!
# What a file defines

A settings file that is well formed gives a table with the entries in their order, at every depth
(`isWholeTable_ofText?`). What is read between points, brackets and braces is put together of plain
values (`Definition.Built`): each piece is one, and defining keeps that. The order comes about at
the end, when the definitions are turned into tables.
-/

namespace CodeGraph.Toml

/-- A value that is neither an array nor a table. -/
def IsPlain : Toml → Prop
  | .array _ | .table _ => False
  | _ => True

theorem IsPlain.isWhole {v : Toml} (h : v.IsPlain) : v.IsWhole := by
  cases v with
  | string s => exact .string s
  | integer i => exact .integer i
  | double x => exact .double x
  | bool b => exact .bool b
  | moment m => exact .moment m
  | array | table => cases h

namespace Definition

/-- A definition that is put together of plain values. -/
inductive Built : Definition → Prop
  | value {v : Toml} (plain : v.IsPlain) : Built (.value v)
  | array {items : List Definition} (built : ∀ d ∈ items, Built d) : Built (.array items)
  | braced {es : Entries} (built : ∀ e ∈ es, Built e.2) : Built (.braced es)
  | table {standing : Standing} {es : Entries} (built : ∀ e ∈ es, Built e.2) :
      Built (.table standing es)
  | tables {elements : List Entries} (built : ∀ es ∈ elements, ∀ e ∈ es, Built e.2) :
      Built (.tables elements)

/-- Entries that are put together of plain values. -/
def AllBuilt (es : Entries) : Prop := ∀ e ∈ es, Built e.2

variable {es es' sub : Entries} {k : String} {d : Definition} {standing : Standing}
  {elements : List Entries}

theorem AllBuilt.nil : AllBuilt [] := by simp [AllBuilt]

theorem AllBuilt.append (h : AllBuilt es) (hd : d.Built) : AllBuilt (es ++ [(k, d)]) := by
  intro e he
  rcases List.mem_append.1 he with he | he
  · exact h e he
  · rw [List.mem_singleton.1 he]
    exact hd

theorem AllBuilt.of_lookup (h : AllBuilt es) (hk : es.lookup k = some d) : d.Built := by
  induction es with
  | nil => cases hk
  | cons e es ih =>
    obtain ⟨he, hes⟩ := List.forall_mem_cons.1 h
    rw [List.lookup_cons] at hk
    split at hk
    · obtain rfl := Option.some.inj hk
      exact he
    · exact ih hes hk

theorem AllBuilt.replace (h : AllBuilt es) (hd : d.Built) : AllBuilt (replace k d es) := by
  intro e he
  obtain ⟨e', he', rfl⟩ := List.mem_map.1 he
  split
  · exact hd
  · exact h e' he'

theorem AllBuilt.of_table (h : AllBuilt es) (hk : es.lookup k = some (.table standing sub)) :
    AllBuilt sub := by
  cases h.of_lookup hk with
  | table built => exact built

theorem AllBuilt.of_tables (h : AllBuilt es) (hk : es.lookup k = some (.tables elements)) :
    ∀ es ∈ elements, AllBuilt es := by
  cases h.of_lookup hk with
  | tables built => exact built

theorem built_tables {last : Entries} (h : ∀ es ∈ elements, AllBuilt es) (hlast : AllBuilt last) :
    (Definition.tables (elements ++ [last])).Built := by
  refine .tables ?_
  intro es hes
  rcases List.mem_append.1 hes with hes | hes
  · exact h es hes
  · rw [List.mem_singleton.1 hes]
    exact hlast

/-- What a change keeps at the end of a path is kept all the way. -/
theorem AllBuilt.descend {dotted : Bool} {change : Standing → Entries → Option Entries}
    (hchange : ∀ standing es es', AllBuilt es → change standing es = some es' → AllBuilt es')
    {path : List String} (h : AllBuilt es)
    (hd : descend dotted change path standing es = some es') : AllBuilt es' := by
  induction path generalizing standing es es' with
  | nil => exact hchange standing es es' h hd
  | cons k path ih =>
    rw [Definition.descend] at hd
    split at hd
    · obtain ⟨sub, hsub, hd⟩ := Option.bind_eq_some_iff.1 hd
      cases hd
      exact h.append (.table (ih .nil hsub))
    · cases hd
    · cases hd
    · cases hd
    · next standing' sub hk =>
      split at hd
      · cases hd
      · obtain ⟨sub', hsub, hd⟩ := Option.bind_eq_some_iff.1 hd
        cases hd
        exact h.replace (.table (ih (h.of_table hk) hsub))
    · next elements hk =>
      obtain ⟨last, hlast, hd⟩ := Option.bind_eq_some_iff.1 hd
      obtain ⟨last', hlast', hd⟩ := Option.bind_eq_some_iff.1 hd
      cases hd
      have helements := h.of_tables hk
      exact h.replace (built_tables (fun es hes => helements es (List.mem_of_mem_dropLast hes))
        (ih (helements last (List.mem_of_getLast? hlast)) hlast'))

theorem AllBuilt.define {path : List String} (h : AllBuilt es) (hd : d.Built)
    (hdefine : define path k d es = some es') : AllBuilt es' := by
  refine AllBuilt.descend ?_ h hdefine
  intro standing es es' hes hadd
  rw [addEntry] at hadd
  split at hadd
  · cases hadd
  · split at hadd
    · cases hadd
    · cases hadd
      exact hes.append hd

/-! ## Values -/

theorem isWholeTable_ofList {vs : List (String × Toml)} (h : ∀ e ∈ vs, e.2.IsWhole) :
    IsWholeTable (NameMap.ofList vs).entries := by
  refine ⟨(NameMap.ofList vs).sorted, ?_⟩
  intro e he
  rcases NameMap.mem_entries_insertMany he with he | he
  · exact h e he
  · cases he

/-- The entries of a table have values in their order under the same names. -/
def EntriesWhole (es : Entries) (vs : List (String × Toml)) : Prop :=
  vs.map Prod.fst = es.map Prod.fst ∧ ∀ e ∈ vs, e.2.IsWhole

theorem isWhole_of_asValue (h : ∀ vs, entryValues es = some vs → EntriesWhole es vs) {v : Toml}
    (hv : asValue es = some v) : v.IsWhole := by
  unfold asValue at hv
  split at hv
  · split at hv
    · obtain ⟨m, -, hv⟩ := Option.bind_eq_some_iff.1 hv
      cases hv
      exact .moment m
    · cases hv
  · next hhead =>
    obtain ⟨vs, hvs, hv⟩ := Option.bind_eq_some_iff.1 hv
    cases hv
    obtain ⟨hnames, hwhole⟩ := h vs hvs
    have htable := isWholeTable_ofList hwhole
    refine .table htable.sorted ?_ htable.whole
    intro hmoment
    -- The first entry has another name, and that is a name of the table too.
    have hall : ∀ k, k ∈ es.map Prod.fst → k = momentName := by
      intro k hk
      rw [← hnames] at hk
      have hmem : k ∈ (NameMap.ofList vs).names := NameMap.mem_names_insertMany.2 (.inr hk)
      rw [NameMap.names, hmoment] at hmem
      exact List.mem_singleton.1 hmem
    cases es with
    | nil =>
      rw [List.map_nil, List.map_eq_nil_iff] at hnames
      subst hnames
      cases hmoment
    | cons e es => exact hhead (by rw [List.head?_cons, Option.map_some, hall e.1 (by simp)])

mutual

theorem isWhole_of_toToml? {d : Definition} (h : d.Built) {v : Toml} (hv : toToml? d = some v) :
    v.IsWhole := by
  cases d with
  | value w =>
    rw [toToml?] at hv
    cases hv
    cases h with
    | value plain => exact plain.isWhole
  | array items =>
    rw [toToml?] at hv
    obtain ⟨vs, hvs, hv⟩ := Option.bind_eq_some_iff.1 hv
    cases hv
    cases h with
    | array built => exact .array (isWhole_of_itemValues built hvs)
  | braced es =>
    rw [toToml?] at hv
    cases h with
    | braced built => exact isWhole_of_asValue (fun vs => isWhole_of_entryValues built) hv
  | table standing es =>
    rw [toToml?] at hv
    cases h with
    | table built => exact isWhole_of_asValue (fun vs => isWhole_of_entryValues built) hv
  | tables elements =>
    rw [toToml?] at hv
    obtain ⟨vs, hvs, hv⟩ := Option.bind_eq_some_iff.1 hv
    cases hv
    cases h with
    | tables built => exact .array (isWhole_of_elementValues built hvs)

theorem isWhole_of_itemValues {items : List Definition} (h : ∀ d ∈ items, d.Built) {vs : List Toml}
    (hvs : itemValues items = some vs) : ∀ v ∈ vs, v.IsWhole := by
  cases items with
  | nil =>
    rw [itemValues] at hvs
    cases hvs
    simp
  | cons d items =>
    obtain ⟨hd, hitems⟩ := List.forall_mem_cons.1 h
    rw [itemValues] at hvs
    obtain ⟨v, hv, hvs⟩ := Option.bind_eq_some_iff.1 hvs
    obtain ⟨vs', hvs', hvs⟩ := Option.bind_eq_some_iff.1 hvs
    cases hvs
    exact List.forall_mem_cons.2 ⟨isWhole_of_toToml? hd hv, isWhole_of_itemValues hitems hvs'⟩

theorem isWhole_of_entryValues {es : Entries} (h : AllBuilt es) {vs : List (String × Toml)}
    (hvs : entryValues es = some vs) : EntriesWhole es vs := by
  cases es with
  | nil =>
    rw [entryValues] at hvs
    cases hvs
    exact ⟨rfl, by simp⟩
  | cons e es =>
    obtain ⟨k, d⟩ := e
    obtain ⟨hd, hes⟩ := List.forall_mem_cons.1 h
    rw [entryValues] at hvs
    obtain ⟨v, hv, hvs⟩ := Option.bind_eq_some_iff.1 hvs
    obtain ⟨vs', hvs', hvs⟩ := Option.bind_eq_some_iff.1 hvs
    cases hvs
    obtain ⟨hnames, hwhole⟩ := isWhole_of_entryValues hes hvs'
    exact ⟨by rw [List.map_cons, hnames, List.map_cons],
      List.forall_mem_cons.2 ⟨isWhole_of_toToml? hd hv, hwhole⟩⟩

theorem isWhole_of_elementValues {elements : List Entries} (h : ∀ es ∈ elements, AllBuilt es)
    {vs : List Toml} (hvs : elementValues elements = some vs) : ∀ v ∈ vs, v.IsWhole := by
  cases elements with
  | nil =>
    rw [elementValues] at hvs
    cases hvs
    simp
  | cons es elements =>
    obtain ⟨hes, helements⟩ := List.forall_mem_cons.1 h
    rw [elementValues] at hvs
    obtain ⟨v, hv, hvs⟩ := Option.bind_eq_some_iff.1 hvs
    obtain ⟨vs', hvs', hvs⟩ := Option.bind_eq_some_iff.1 hvs
    cases hvs
    exact List.forall_mem_cons.2
      ⟨isWhole_of_asValue (fun vs => isWhole_of_entryValues hes) hv,
        isWhole_of_elementValues helements hvs'⟩

end

end Definition

/-! ## Scanning -/

open Definition

theorem isPlain_of_scanBased {base : Nat} {isDigit : Char → Bool} {cs rest : List Char} {v : Toml}
    (h : scanBased base isDigit cs = some (v, rest)) : v.IsPlain := by
  obtain ⟨⟨ds, rest'⟩, -, h⟩ := Option.bind_eq_some_iff.1 h
  obtain ⟨i, -, h⟩ := Option.bind_eq_some_iff.1 h
  cases h
  trivial

theorem isPlain_of_doubleOf? {negative : Bool} {whole fraction : List Char} {exponent : Int}
    {v : Toml} (h : doubleOf? negative whole fraction exponent = some v) : v.IsPlain := by
  rw [doubleOf?] at h
  split at h
  · cases h
    trivial
  · split at h
    · cases h
    · cases h
      trivial

theorem isPlain_of_scanDecimal {cs rest : List Char} {v : Toml}
    (h : scanDecimal cs = some (v, rest)) : v.IsPlain := by
  have hdouble : ∀ {negative whole fraction exponent} {rest' : List Char},
      (do return (← doubleOf? negative whole fraction exponent, rest')) = some (v, rest) →
        v.IsPlain := by
    intro negative whole fraction exponent rest' h
    obtain ⟨x, hx, h⟩ := Option.bind_eq_some_iff.1 h
    cases h
    exact isPlain_of_doubleOf? hx
  obtain ⟨⟨whole, cs'⟩, -, h⟩ := Option.bind_eq_some_iff.1 h
  simp only at h
  split at h
  · split at h
    · exact hdouble h
    · exact hdouble h
  · exact hdouble h
  · obtain ⟨i, -, h⟩ := Option.bind_eq_some_iff.1 h
    cases h
    trivial

theorem isPlain_of_scanSpecial {cs rest : List Char} {v : Toml}
    (h : scanSpecial cs = some (v, rest)) : v.IsPlain := by
  unfold scanSpecial at h
  simp only at h
  split at h
  · cases h
    trivial
  · cases h
    trivial
  · cases h

theorem isPlain_of_scanNumber {cs rest : List Char} {v : Toml}
    (h : scanNumber cs = some (v, rest)) : v.IsPlain := by
  unfold scanNumber at h
  split at h
  · exact isPlain_of_scanBased h
  · exact isPlain_of_scanBased h
  · exact isPlain_of_scanBased h
  · rcases Option.or_eq_some_iff.1 h with h | ⟨-, h⟩
    · exact isPlain_of_scanSpecial h
    · exact isPlain_of_scanDecimal h

theorem isPlain_of_scanScalar {cs rest : List Char} {v : Toml}
    (h : scanScalar cs = some (v, rest)) : v.IsPlain := by
  unfold scanScalar at h
  split at h
  · cases h
    trivial
  · cases h
    trivial
  · split at h
    · cases h
      trivial
    · exact isPlain_of_scanNumber h

/-- Entries of a table in braces that are put together of plain values. -/
theorem built_of_inlineTable {entries : List (List String × Definition)} {d : Definition}
    (h : ∀ e ∈ entries, e.2.Built) (hd : inlineTable entries = some d) : d.Built := by
  obtain ⟨es, hes, hbraced⟩ := Option.bind_eq_some_iff.1 hd
  clear hd
  cases hbraced
  suffices hall : AllBuilt es from .braced hall
  have hnil := AllBuilt.nil
  generalize ([] : Entries) = start at hes hnil
  induction entries generalizing start with
  | nil =>
    cases hes
    exact hnil
  | cons e entries ih =>
    obtain ⟨he, hentries⟩ := List.forall_mem_cons.1 h
    rw [List.foldlM_cons] at hes
    obtain ⟨next, hnext, hes⟩ := Option.bind_eq_some_iff.1 hes
    obtain ⟨⟨path, k⟩, -, hnext⟩ := Option.bind_eq_some_iff.1 hnext
    exact ih hentries next hes (hnil.define he hnext)

mutual

theorem built_of_scanValue {fuel room : Nat} {cs rest : List Char} {d : Definition}
    (h : scanValue fuel room cs = some (d, rest)) : d.Built := by
  cases fuel with
  | zero => cases h
  | succ fuel =>
    unfold scanValue at h
    split at h
    · split at h
      · cases h
      · obtain ⟨⟨vs, rest'⟩, hvs, h⟩ := Option.map_eq_some_iff.1 h
        cases h
        exact .array (built_of_scanItems hvs)
    · split at h
      · cases h
      · split at h
        · obtain ⟨d', hd', h⟩ := Option.bind_eq_some_iff.1 h
          cases h
          exact built_of_inlineTable (by simp) hd'
        · obtain ⟨⟨entries, rest'⟩, hentries, h⟩ := Option.bind_eq_some_iff.1 h
          obtain ⟨d', hd', h⟩ := Option.bind_eq_some_iff.1 h
          cases h
          exact built_of_inlineTable (built_of_scanEntries hentries) hd'
    · obtain ⟨⟨s, rest'⟩, -, h⟩ := Option.map_eq_some_iff.1 h
      cases h
      exact .value trivial
    · obtain ⟨⟨s, rest'⟩, -, h⟩ := Option.map_eq_some_iff.1 h
      cases h
      exact .value trivial
    · obtain ⟨⟨v, rest'⟩, hv, h⟩ := Option.map_eq_some_iff.1 h
      cases h
      exact .value (isPlain_of_scanScalar hv)

theorem built_of_scanItems {fuel room : Nat} {cs rest : List Char} {ds : List Definition}
    (h : scanItems fuel room cs = some (ds, rest)) : ∀ d ∈ ds, d.Built := by
  cases fuel with
  | zero => cases h
  | succ fuel =>
    unfold scanItems at h
    split at h
    · cases h
      simp
    · obtain ⟨⟨d, cs'⟩, hd, h⟩ := Option.bind_eq_some_iff.1 h
      simp only at h
      split at h
      · obtain ⟨⟨ds', rest'⟩, hds, h⟩ := Option.bind_eq_some_iff.1 h
        cases h
        exact List.forall_mem_cons.2 ⟨built_of_scanValue hd, built_of_scanItems hds⟩
      · cases h
        simpa using built_of_scanValue hd
      · cases h

theorem built_of_scanEntries {fuel room : Nat} {cs rest : List Char}
    {entries : List (List String × Definition)}
    (h : scanEntries fuel room cs = some (entries, rest)) : ∀ e ∈ entries, e.2.Built := by
  cases fuel with
  | zero => cases h
  | succ fuel =>
    unfold scanEntries at h
    obtain ⟨⟨names, cs'⟩, -, h⟩ := Option.bind_eq_some_iff.1 h
    simp only at h
    split at h
    · obtain ⟨⟨d, cs''⟩, hd, h⟩ := Option.bind_eq_some_iff.1 h
      simp only at h
      split at h
      · obtain ⟨⟨entries', rest'⟩, hentries, h⟩ := Option.bind_eq_some_iff.1 h
        cases h
        exact List.forall_mem_cons.2 ⟨built_of_scanValue hd, built_of_scanEntries hentries⟩
      · cases h
        simpa using built_of_scanValue hd
      · cases h
    · cases h

end

/-! ## Files -/

/-- What has been defined so far is put together of plain values. -/
structure Definitions.Built (d : Definitions) : Prop where
  finished : AllBuilt d.finished
  current : AllBuilt d.current

namespace Definitions.Built

variable {d d' : Definitions} {names : List String} {es : Entries}

theorem finish (h : d.Built) (hes : d.finish = some es) : AllBuilt es := by
  unfold Definitions.finish at hes
  split at hes
  · cases hes
    exact h.current
  · refine h.finished.descend ?_ hes
    intro standing es es' hall hplace
    split at hplace
    · split at hplace
      · cases hplace
        exact hall.append (built_tables (List.forall_mem_nil _) h.current)
      · next elements hk =>
        cases hplace
        exact hall.replace (built_tables (hall.of_tables hk) h.current)
      · cases hplace
    · split at hplace
      · cases hplace
      · cases hplace
        exact hall.append (.table h.current)

theorem lookupPath {path : List String} {k : String} (h : AllBuilt es) :
    AllBuilt (startTable.lookupPath path k es) := by
  induction path generalizing es with
  | nil =>
    rw [startTable.lookupPath]
    split
    · next hk => exact h.of_table hk
    · exact .nil
  | cons p path ih =>
    rw [startTable.lookupPath]
    split
    · next hk => exact ih (h.of_table hk)
    · next elements hk =>
      rcases hlast : elements.getLast? with _ | last
      · exact ih .nil
      · exact ih (h.of_tables hk last (List.mem_of_getLast? hlast))
    · exact .nil

theorem startTable (h : d.Built) (hd : d.startTable names = some d') : d'.Built := by
  obtain ⟨finished, hfinished, hd⟩ := Option.bind_eq_some_iff.1 hd
  obtain ⟨⟨path, k⟩, -, hd⟩ := Option.bind_eq_some_iff.1 hd
  obtain ⟨seen, hseen, hd⟩ := Option.bind_eq_some_iff.1 hd
  obtain ⟨without, hwithout, hd⟩ := Option.bind_eq_some_iff.1 hd
  cases hd
  have hall : AllBuilt seen := by
    refine (h.finish hfinished).descend ?_ hseen
    intro standing es es' hes hfound
    split at hfound
    · cases hfound
      exact hes
    · cases hfound
      exact hes
    · cases hfound
  refine ⟨hall.descend ?_ hwithout, lookupPath hall⟩
  intro standing es es' hes hfilter
  cases hfilter
  exact fun e he => hes e (List.mem_of_mem_filter he)

theorem startElement (h : d.Built) (hd : d.startElement names = some d') : d'.Built := by
  obtain ⟨finished, hfinished, hd⟩ := Option.bind_eq_some_iff.1 hd
  obtain ⟨⟨path, k⟩, -, hd⟩ := Option.bind_eq_some_iff.1 hd
  obtain ⟨seen, hseen, hd⟩ := Option.bind_eq_some_iff.1 hd
  cases hd
  refine ⟨(h.finish hfinished).descend ?_ hseen, .nil⟩
  intro standing es es' hes hfound
  split at hfound
  · cases hfound
    exact hes
  · cases hfound
    exact hes
  · cases hfound

theorem define (h : d.Built) {v : Definition} (hv : v.Built) (hd : d.define names v = some d') :
    d'.Built := by
  obtain ⟨⟨path, k⟩, -, hd⟩ := Option.bind_eq_some_iff.1 hd
  obtain ⟨current, hcurrent, hd⟩ := Option.bind_eq_some_iff.1 hd
  cases hd
  exact ⟨h.finished, h.current.define hv hcurrent⟩

theorem scanLine {cs rest : List Char} (h : d.Built) (hd : scanLine d cs = some (d', rest)) :
    d'.Built := by
  unfold Toml.scanLine at hd
  split at hd
  · obtain ⟨⟨names, cs'⟩, -, hd⟩ := Option.bind_eq_some_iff.1 hd
    simp only at hd
    split at hd
    · obtain ⟨next, hnext, hd⟩ := Option.bind_eq_some_iff.1 hd
      obtain ⟨rest', -, hd⟩ := Option.bind_eq_some_iff.1 hd
      cases hd
      exact h.startElement hnext
    · cases hd
  · obtain ⟨⟨names, cs'⟩, -, hd⟩ := Option.bind_eq_some_iff.1 hd
    simp only at hd
    split at hd
    · obtain ⟨next, hnext, hd⟩ := Option.bind_eq_some_iff.1 hd
      obtain ⟨rest', -, hd⟩ := Option.bind_eq_some_iff.1 hd
      cases hd
      exact h.startTable hnext
    · cases hd
  · obtain ⟨⟨names, cs'⟩, -, hd⟩ := Option.bind_eq_some_iff.1 hd
    simp only at hd
    split at hd
    · obtain ⟨⟨v, cs''⟩, hv, hd⟩ := Option.bind_eq_some_iff.1 hd
      obtain ⟨next, hnext, hd⟩ := Option.bind_eq_some_iff.1 hd
      obtain ⟨rest', -, hd⟩ := Option.bind_eq_some_iff.1 hd
      cases hd
      exact h.define (built_of_scanValue hv) hnext
    · cases hd

theorem scanAll {fuel : Nat} {cs : List Char} (h : d.Built) (hd : scanAll fuel d cs = some d') :
    d'.Built := by
  induction fuel generalizing d cs with
  | zero => cases hd
  | succ fuel ih =>
    unfold Toml.scanAll at hd
    split at hd
    · cases hd
      exact h
    · split at hd
      · cases hd
        exact h
      · cases hd
    · obtain ⟨⟨next, cs'⟩, hnext, hd⟩ := Option.bind_eq_some_iff.1 hd
      exact ih (h.scanLine hnext) hd

end Definitions.Built

/-- **The table of a file** has its entries in their order, at every depth. -/
theorem isWholeTable_ofText? {s : String} {t : Table} (h : ofText? s = some t) :
    IsWholeTable t := by
  obtain ⟨d, hd, h⟩ := Option.bind_eq_some_iff.1 h
  obtain ⟨es, hes, h⟩ := Option.bind_eq_some_iff.1 h
  obtain ⟨vs, hvs, h⟩ := Option.bind_eq_some_iff.1 h
  cases h
  have hbuilt : Definitions.Built d := Definitions.Built.scanAll ⟨.nil, .nil⟩ hd
  exact isWholeTable_ofList (isWhole_of_entryValues (hbuilt.finish hes) hvs).2

end CodeGraph.Toml
