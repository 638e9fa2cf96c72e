import CodeGraph.Proofs.Volume.Places

/-!
# Another order of listing

Two volumes may have the same item at every path and yet list their directories in different orders
(`Relisted`). No way through them depends on the order: every path leads to the same place in both
(`Relisted.resolve`), and the directories that can be made in one can be made in the other, after which
the two are again alike but for the order (`Relisted.makeDirs`).
-/

namespace CodeGraph.Volume

/-- The same items at the same paths, listed in another order. -/
structure Relisted (v w : Volume) : Prop where
  current : w.current = v.current
  item : ∀ p, w.item? p = v.item? p
  children : ∀ p, (w.children p).Perm (v.children p)

namespace Relisted

variable {u v w : Volume} {p : String} {q : List String}

theorem refl (v : Volume) : v.Relisted v :=
  ⟨rfl, fun _ => rfl, fun _ => .refl _⟩

theorem within (h : v.Relisted w) : v.Within w := by
  refine ⟨h.current, ?_⟩
  intro q i hi
  rw [h.item]
  exact hi

/-! ## Looking -/

theorem walk (h : v.Relisted w) (follow : Bool) (hops : Nat) (here names : List String) :
    w.walk follow hops here names = v.walk follow hops here names := by
  fun_induction Volume.walk v follow hops here names
  case case9 _ _ rest _ _ _ _ _ _ _ hgo =>
    have hgo' : ¬ (rest = [] ∧ follow = false) := by simpa using hgo
    rw [Volume.walk]
    simp +zetaDelta [h.item, *]
  case case10 _ _ rest _ _ _ _ _ _ _ hgo _ ih =>
    have hgo' : ¬ (rest = [] ∧ follow = false) := by simpa using hgo
    simp only [dite_eq_ite] at ih
    rw [Volume.walk]
    simp +zetaDelta [h.item, *]
  all_goals
    rw [Volume.walk]
    simp +zetaDelta [h.item, *]

theorem resolve (h : v.Relisted w) (follow : Bool) (p : String) :
    w.resolve follow p = v.resolve follow p := by
  rw [Volume.resolve, Volume.resolve, h.current, h.walk]

theorem find (h : v.Relisted w) (follow : Bool) (p : String) :
    w.find follow p = v.find follow p := by
  rw [Volume.find, Volume.find, h.resolve]

theorem isDirectory (h : v.Relisted w) (p : String) : w.isDirectory p = v.isDirectory p := by
  rw [Volume.isDirectory, Volume.isDirectory, metadata, metadata, h.find]

theorem leadsTo (h : v.Relisted w) (hlead : v.LeadsTo p q) : w.LeadsTo p q := by
  rw [LeadsTo, h.resolve]
  exact hlead

/-- What cannot be listed for one reason cannot be listed for the same reason in another order. -/
theorem readDir_error (h : v.Relisted w) {e : OsError} (herror : v.readDir p = .error e) :
    w.readDir p = .error e := by
  rw [Volume.readDir, h.find]
  rw [Volume.readDir] at herror
  rcases hfind : v.find true p with e' | ⟨q, _ | _ | _⟩
  all_goals
    rw [hfind] at herror
    cases herror
  all_goals rfl

theorem isTree (h : v.Relisted w) (htree : v.IsTree) : w.IsTree := by
  refine ⟨?_, ?_⟩
  · rw [h.current, h.item]
    exact htree.current
  · intro q n hsome
    rw [h.item] at hsome ⊢
    exact htree.parent q n hsome

/-! ## Making directories -/

theorem any_eq_isSome (v : Volume) (hq : q ≠ []) :
    (v.entries.any fun e => e.1 == q) = (v.item? q).isSome := by
  rw [item?_of_ne_nil v hq, Bool.eq_iff_iff, lookup_isSome_iff, List.any_eq_true]
  constructor
  · rintro ⟨⟨r, i⟩, hmem, heq⟩
    obtain rfl : r = q := by simpa using heq
    exact ⟨i, hmem⟩
  · rintro ⟨i, hmem⟩
    exact ⟨(q, i), hmem, by simp⟩

/-- What a put adds to a listing depends on the listing in whether the name is new only. -/
theorem put (h : v.Relisted w) (hq : q ≠ []) (i : Item) : (v.put q i).Relisted (w.put q i) := by
  refine ⟨?_, ?_, ?_⟩
  · rw [current_put, current_put, h.current]
  · intro r
    rw [item?_put w hq, item?_put v hq, h.item]
  · intro r
    have hany : (w.entries.any fun e => e.1 == q) = v.entries.any fun e => e.1 == q := by
      rw [any_eq_isSome w hq, any_eq_isSome v hq, h.item]
    rw [Volume.put, Volume.put, hany]
    split
    · rw [children_replace, children_replace]
      exact h.children r
    · have hadd : ∀ u : Volume, ({ u with entries := u.entries ++ [(q, i)] } : Volume).children r =
          u.children r ++ (⟨[(q, i)], []⟩ : Volume).children r := by
        intro u
        simp only [Volume.children, List.filterMap_append]
      rw [hadd, hadd]
      exact (h.children r).append_right _

theorem makeDir (h : v.Relisted w) (p : String) :
    (∃ v' w', v.makeDir p = .ok v' ∧ w.makeDir p = .ok w' ∧ v'.Relisted w') ∨
      ∃ e, v.makeDir p = .error e ∧ w.makeDir p = .error e := by
  rw [Volume.makeDir, Volume.makeDir, h.resolve]
  rcases hresolve : v.resolve false p with e | ⟨r, _ | i⟩
  · exact .inr ⟨e, rfl, rfl⟩
  · left
    have hr : r ≠ [] := by
      rintro rfl
      have hitem := resolve_eq_ok hresolve
      rw [item?_nil] at hitem
      cases hitem
    exact ⟨_, _, rfl, rfl, h.put hr .directory⟩
  · exact .inr ⟨.alreadyExists, rfl, rfl⟩

/-- A directory that could not be made counts as made if it is there. -/
theorem made_of_isDirectory (h : v.Relisted w) {e : OsError} {v' : Volume}
    (hmake : (if v.isDirectory p then Except.ok v else .error e) = .ok v') :
    ∃ w', (if w.isDirectory p then Except.ok w else .error e) = .ok w' ∧ v'.Relisted w' := by
  rw [h.isDirectory]
  split at hmake
  · next hdir =>
    cases hmake
    exact ⟨w, if_pos hdir, h⟩
  · cases hmake

theorem makeDirsOf (h : v.Relisted w) (above : List String) {v' : Volume}
    (hmake : v.makeDirsOf above = .ok v') :
    ∃ w', w.makeDirsOf above = .ok w' ∧ v'.Relisted w' := by
  induction above generalizing v' with
  | nil =>
    obtain rfl : v = v' := by simpa [Volume.makeDirsOf] using hmake
    exact ⟨w, rfl, h⟩
  | cons p above ih =>
    rw [Volume.makeDirsOf] at hmake ⊢
    rcases h.makeDir p with ⟨v₁, w₁, hv, hw, hlike⟩ | ⟨e, hv, hw⟩
    · rw [hv] at hmake
      cases hmake
      rw [hw]
      exact ⟨w₁, rfl, hlike⟩
    rw [hv] at hmake
    rw [hw]
    cases e with
    | notFound =>
      rcases habove : v.makeDirsOf above with e | v₁
      · rw [habove] at hmake
        cases hmake
      obtain ⟨w₁, hw₁, hlike⟩ := ih habove
      rw [habove] at hmake
      rw [hw₁]
      simp only [bind, Except.bind] at hmake ⊢
      rcases hlike.makeDir p with ⟨v₂, w₂, hv₂, hw₂, hlike₂⟩ | ⟨e, hv₂, hw₂⟩
      · rw [hv₂] at hmake
        cases hmake
        rw [hw₂]
        exact ⟨w₂, rfl, hlike₂⟩
      · rw [hv₂] at hmake
        rw [hw₂]
        exact hlike.made_of_isDirectory hmake
    | _ => exact h.made_of_isDirectory hmake

theorem makeDirs (h : v.Relisted w) {v' : Volume} (hmake : v.makeDirs p = .ok v') :
    ∃ w', w.makeDirs p = .ok w' ∧ v'.Relisted w' :=
  h.makeDirsOf _ hmake

end Relisted

end CodeGraph.Volume
