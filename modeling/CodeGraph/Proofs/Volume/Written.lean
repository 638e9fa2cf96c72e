import CodeGraph.Proofs.Volume.Unlinked
import CodeGraph.Text.Glyph

/-!
# Reading what was written

A file that has been written is read back by the path that it was written by, whatever links are on
the way (`readText_of_writeFile`). What can be read stays as it is when directories are made
(`readFile_within`).
-/

namespace CodeGraph.Volume

variable {v w : Volume} {p : String} {q r : List String} {i : Option Item} {content : ByteArray}

/-! ## The way to a file -/

/-- A way on which links are followed does not end at one. -/
theorem IsTree.ne_link_of_walk (hv : v.IsTree) {hops : Nat} {here names : List String}
    (hhere : v.item? here = some .directory) (h : v.walk true hops here names = .ok (r, i))
    (target : String) : i ≠ some (.link target) := by
  fun_induction walk v true hops here names with
  | case1 hops here =>
    rw [hhere] at h
    cases h
    simp
  | case3 hops here m rest _ _ ih => exact ih hhere h
  | case4 hops here rest _ _ ih => exact ih (hv.dropLast hhere) h
  | case10 here m rest _ _ _ _ there target _ _ hops ih =>
    refine ih ?_ h
    split
    · exact v.item?_nil
    · exact hhere
  | case13 hops here m rest _ _ _ _ there hi ih => exact ih hi h
  | case6 | case11 =>
    simp only [Except.ok.injEq, Prod.mk.injEq] at h
    obtain ⟨-, rfl⟩ := h
    simp
  | case8 => simp_all
  | case2 | case5 | case7 | case9 | case12 => simp at h

/-- A way that ends where there is neither a directory nor a link leads to the file that is put
there, or stops at it because more of the way was to follow. -/
theorem walk_put (content : ByteArray) (hv : v.IsTree) (hdirectory : i ≠ some .directory)
    (hlink : ∀ target, i ≠ some (.link target)) {hops : Nat} {here names : List String}
    (hhere : v.item? here = some .directory)
    (h : v.walk true hops here names = .ok (r, i)) :
    (v.put r (.file content)).walk true hops here names = .ok (r, some (.file content)) ∨
      i = none ∧ (v.put r (.file content)).walk true hops here names = .error .notDirectory := by
  have hi := walk_eq_ok h
  have hr : r ≠ [] := by
    rintro rfl
    exact hdirectory (hi.trans (item?_nil v))
  have hwritten : (v.put r (.file content)).item? r = some (.file content) := by
    rw [item?_put v hr, if_pos rfl]
  have hkept : ∀ s j, v.item? s = some j → (∀ old, j ≠ .file old) →
      (v.put r (.file content)).item? s = some j := by
    intro s j hs hfile
    rw [item?_put v hr, if_neg]
    · exact hs
    · rintro rfl
      rw [hs] at hi
      rcases j with old | _ | target
      · exact hfile old rfl
      · exact hdirectory hi
      · exact hlink target hi
  cases Abreast.of_kept hkept hv true hops here names hhere with
  | same walk =>
    rw [h] at walk
    rw [walk, walk_eq_ok walk, hwritten]
    exact .inl rfl
  | @parts left there n rest directory name item met walk walk' =>
    have hthere := hkept _ _ directory (by simp)
    rw [walk] at h
    rw [walk']
    obtain ⟨rfl, ⟨rfl, -, -⟩ | ⟨old, rfl, -, rfl⟩⟩ := walk_cons_eq_ok directory name item h
    · rw [walk_cons_file hthere name hwritten]
      split
      · exact .inl rfl
      · exact .inr ⟨rfl, rfl⟩
    · rw [walk_cons_file hthere name hwritten]
      exact .inl rfl

/-- A path that a file was written by leads to the file. -/
theorem find_of_writeFile_eq_ok (hv : v.IsTree) (h : v.writeFile p content = .ok w) :
    ∃ r i, v.resolve true p = .ok (r, i) ∧ w = v.put r (.file content) ∧
      w.find true p = .ok (r, .file content) := by
  obtain ⟨r, i, hresolve, hdirectory, rfl, hthere⟩ := exists_put_of_writeFile h
  obtain ⟨hempty, hend, hlen, hwalk⟩ := walk_of_resolve hresolve
  have hresolve' := resolve_eq_walk (v := v.put r (.file content)) hempty hend hlen true
  rw [current_put] at hresolve'
  have hlink := hv.ne_link_of_walk (hv.item?_start p) hwalk
  refine ⟨r, i, hresolve, rfl, ?_⟩
  rcases walk_put content hv hdirectory hlink (hv.item?_start p) hwalk with hfile | ⟨hnone, herror⟩
  · rw [find, hresolve', hfile]
    rfl
  · have hfound := hthere hnone
    rw [fileExists, metadata, find, hresolve', herror] at hfound
    cases hfound

/-- What was written first does not matter to what is written then. -/
theorem writeFile_again {u : Volume} {new : ByteArray} (hv : v.IsTree)
    (h : v.writeFile p content = .ok w) (h' : v.writeFile p new = .ok u) :
    w.writeFile p new = .ok u := by
  obtain ⟨r, i, hresolve, rfl, hfind⟩ := find_of_writeFile_eq_ok hv h
  obtain ⟨r', i', hresolve', -, rfl, -⟩ := exists_put_of_writeFile h'
  obtain ⟨rfl, -⟩ : r = r' ∧ i = i' := by
    rw [hresolve] at hresolve'
    simpa using hresolve'
  rw [writeFile, resolve_of_find hfind, ← put_put v r (.file content) (.file new)]
  rfl

/-- A file is written in a directory, over nothing but a file. -/
theorem IsTree.writeFile (hv : v.IsTree) (h : v.writeFile p content = .ok w) :
    w.IsTree ∧
    ∃ r i, v.resolve true p = .ok (r, i) ∧ r ≠ [] ∧ w = v.put r (.file content) ∧
      ∀ j, v.item? r = some j → ∃ old, j = .file old := by
  obtain ⟨r, i, hresolve, hi, rfl, -⟩ := exists_put_of_writeFile h
  obtain ⟨-, -, -, hwalk⟩ := walk_of_resolve hresolve
  have hitem := walk_eq_ok hwalk
  have hlink := hv.ne_link_of_walk (hv.item?_start p) hwalk
  have hdirectory : v.item? r ≠ some .directory := hitem ▸ hi
  have hr : r ≠ [] := by
    rintro rfl
    exact hdirectory (item?_nil v)
  have hfile : ∀ j, v.item? r = some j → ∃ old, j = .file old := by
    rintro (old | _ | target) hj
    · exact ⟨old, rfl⟩
    · exact absurd hj hdirectory
    · exact absurd (hitem.trans hj) (hlink target)
  refine ⟨?_, r, i, hresolve, hr, rfl, hfile⟩
  obtain ⟨front, n, rfl⟩ := (List.eq_nil_or_concat r).resolve_left hr
  rw [List.concat_eq_append] at hwalk hitem hdirectory ⊢
  refine hv.put ?_ hdirectory
  rcases i with _ | i
  · obtain ⟨front', n', heq, hfront⟩ := hv.exists_of_walk_missing (hv.item?_start p) hwalk
    rw [(List.append_inj' heq rfl).1]
    exact hfront
  · exact hv.parent front n (by rw [← hitem]; rfl)

/-! ## Reading -/

theorem readFile_of_find (h : v.find true p = .ok (r, .file content)) :
    v.readFile p = .ok content := by
  rw [readFile, h]
  rfl

theorem readText_of_readFile {s : String} (h : v.readFile p = .ok s.toUTF8) :
    v.readText p = .ok s := by
  rw [readText, h]
  simp only [bind, Except.bind, Text.Glyph.fromUTF8?_toUTF8]
  rfl

/-- **What was written is read**, and it is there. -/
theorem readText_of_writeFile {s : String} (hv : v.IsTree)
    (h : v.writeFile p s.toUTF8 = .ok w) :
    (w.metadata p).isOk = true ∧ w.readText p = .ok s := by
  obtain ⟨r, -, -, -, hfind⟩ := find_of_writeFile_eq_ok hv h
  refine ⟨?_, readText_of_readFile (readFile_of_find hfind)⟩
  rw [metadata, hfind]
  rfl

theorem readFile_within (hw : v.Within w) (h : v.readFile p = .ok content) :
    w.readFile p = .ok content := by
  rw [readFile] at h
  rcases hfind : v.find true p with e | ⟨r, _ | _ | _⟩
  all_goals
    rw [hfind] at h
    cases h
  exact readFile_of_find (find_within hw hfind)

end CodeGraph.Volume
