import CodeGraph.Proofs.Cache.AnyDirectory
import CodeGraph.Proofs.Cache.Runs

/-!
# Values that have been superseded

After a value has been stored, a lookup of its key answers that value or none until the key is stored
again, whatever faults are met on the way (`DiskCache.get_after_set`). There is one exception. A value
that is larger than the whole cache is refused before anything is done, so the value that it should
have superseded stays and goes on being answered (`DiskCache.get_after_set_refused`).
-/

namespace CodeGraph.Cache

open DiskCache (valueEnding)

namespace DiskCache

/-- A value is refused only for its size, and then nothing is done. -/
theorem refused_of_set {now : UInt64} {key : String} {content : ByteArray} {s s' : DiskState}
    (h : (set now key content).run.run s = (.ok false, s')) :
    s' = s ∧ s.cache.maxSize < UInt64.ofNat content.size := by
  rw [set, run_bind_ok (run_get s)] at h
  split at h
  · next hlarge =>
    cases h
    exact ⟨rfl, hlarge⟩
  · obtain ⟨_, s₁, -, h⟩ := exists_of_run_bind h
    rw [run_bind_ok (run_get s₁)] at h
    split at h
    · obtain ⟨_, _, -, h⟩ := exists_of_run_bind h
      cases h
    · obtain ⟨_, _, -, h⟩ := exists_of_run_bind h
      obtain ⟨_, _, -, h⟩ := exists_of_run_bind h
      obtain ⟨_, _, -, h⟩ := exists_of_run_bind h
      cases h

/-- **A lookup answers the value that was stored last, or none**, until its key is stored again: what
another key with the same digest has left is the only other answer, unless the value was refused. Then
the answer may be the value that was there before. -/
theorem get_after_set {settings : DiskSettings} {drive : Drive} {s s₁ s₂ s₃ : DiskState}
    {before after : List (DiskCall × Except CacheError DiskAnswer)}
    {faults faults' : List (Option Fault)} {now : UInt64} {key : String} {content : ByteArray}
    {kept : Bool} {found : ByteArray}
    (horderly : Orderly drive.volume settings.directory)
    (hbefore : Runs ⟨DiskCache.new settings, drive⟩ before s)
    (hset : (set now key content).run.run (s.facing faults) = (.ok kept, s₁))
    (hafter : Runs s₁ after s₂)
    (hnext : ∀ c ∈ after, ∀ value, c.1.offer? ≠ some (key, value))
    (hget : (get key).run.run (s₂.facing faults') = (.ok (some found), s₃)) :
    found = content ∨
      (∃ c ∈ after, ∃ other, other ≠ key ∧ keyDigest other = keyDigest key ∧
        c.1.offer? = some (other, found)) ∨
      kept = false ∧ s₁ = s.facing faults ∧ s.cache.maxSize < UInt64.ofNat content.size ∧
        s.fileOf? (keyDigest key) valueEnding = some found := by
  obtain ⟨S, hstart⟩ := horderly.exists_ready
  have hd := isDigest_keyDigest key
  have hs := (hstart.traced hbefore).ready
  have hstored := Shelf.stored_set now key content (s.facing faults) (hs.facing faults)
  rw [hset] at hstored
  have htraced := hstored.ready.traced hafter
  have hfound := Shelf.fileAt_of_get (htraced.ready.facing faults') hget
  rcases htraced.value _ _ hd hfound with hold | ⟨call, hcall, other, hoffer, hsame⟩
  · cases kept with
    | true => exact .inl (hstored.value rfl _ hold)
    | false =>
      obtain ⟨rfl, hlarge⟩ := refused_of_set hset
      right
      right
      refine ⟨rfl, rfl, hlarge, ?_⟩
      rw [S.fileOf?_eq hs.directory hs.site hd valueEnding_mem]
      exact hold
  · obtain ⟨c, hc, rfl⟩ := List.mem_map.1 hcall
    right
    left
    refine ⟨c, hc, other, ?_, hsame, hoffer⟩
    rintro rfl
    exact hnext c hc found hoffer

/-- A value of one byte is stored in a cache of four bytes and one of five is refused, which leaves
the first one in its place. -/
theorem exists_outlived : ∃ s : DiskState,
    Runs ⟨DiskCache.new ⟨"cache", 4⟩, ⟨volumeOf "cache", []⟩⟩
      [(.set 1 "k" ⟨#[1]⟩, .ok (.stored true))] s ∧
    s.facing [] = s ∧
    (set 2 "k" ⟨#[1, 2, 3, 4, 5]⟩).run.run s = (.ok false, s) ∧
    (get "k").run.run s = (.ok (some ⟨#[1]⟩), s) := by
  obtain ⟨S, s, m, sc, hruns, haccounted, hm, hkey, hfour, -⟩ := exists_byte 4 (by decide)
  have hget := haccounted.settled.get_of_content hm hkey
  have hlarge : s.cache.maxSize < UInt64.ofNat (⟨#[1, 2, 3, 4, 5]⟩ : ByteArray).size := by
    rw [hfour]
    decide
  exact ⟨s, hruns, DiskState.facing_nil haccounted.settled.faultless,
    set_refused hlarge, hget⟩

/-- The answer after the refusal is what had been there. -/
theorem get_after_set_outlived : ∃ s : DiskState,
    (set 2 "k" ⟨#[1, 2, 3, 4, 5]⟩).run.run s = (.ok false, s) ∧
      (get "k").run.run s = (.ok (some ⟨#[1]⟩), s) ∧
      s.fileOf? (keyDigest "k") valueEnding = some ⟨#[1]⟩ := by
  have hfresh : Fresh (volumeOf "cache") "cache" :=
    fresh_volumeOf (by decide)
  obtain ⟨s, hruns, hfacing, hset, hget⟩ := exists_outlived
  have hset' : (set 2 "k" ⟨#[1, 2, 3, 4, 5]⟩).run.run (s.facing []) = (.ok false, s) := by
    rw [hfacing]
    exact hset
  have hget' : (get "k").run.run (s.facing []) = (.ok (some ⟨#[1]⟩), s) := by
    rw [hfacing]
    exact hget
  refine ⟨s, hset, hget, ?_⟩
  rcases get_after_set hfresh.orderly hruns hset' .start (fun c hc => by cases hc) hget' with
    hsame | ⟨c, hc, -⟩ | ⟨-, -, -, hfile⟩
  · exact absurd hsame (by decide)
  · cases hc
  · exact hfile

/-- It is not so that a lookup after a store answers the value of this store or none. -/
theorem get_after_set_refused : ¬ ∀ (s s₁ s₂ : DiskState)
    (before : List (DiskCall × Except CacheError DiskAnswer)) (now : UInt64) (key : String)
    (content found : ByteArray) (kept : Bool),
    Runs ⟨DiskCache.new ⟨"cache", 4⟩, ⟨volumeOf "cache", []⟩⟩ before s →
    (set now key content).run.run s = (.ok kept, s₁) →
    (get key).run.run s₁ = (.ok (some found), s₂) → found = content := by
  intro hclaim
  obtain ⟨s, hruns, -, hset, hget⟩ := exists_outlived
  have hsame := hclaim s s s _ 2 "k" _ _ false hruns hset hget
  exact absurd hsame (by decide)

end DiskCache

end CodeGraph.Cache
