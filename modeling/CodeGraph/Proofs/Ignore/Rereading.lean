import CodeGraph.Ignore.Level
import CodeGraph.Proofs.Cache.Foreign
import CodeGraph.Proofs.Volume.Spared

/-!
# Ignore rules that are read again

The rules of a directory, of the directories above it and of a person are told by what some paths
read. So they stay as they are where a change spares the files of other names than this program
writes (`Level.ofDirectory_spared`, `Person.rules_spared`, `Levels.ofRoot_spared`). Paths of a person
may be spelled in any way; of those that are consulted it is asked that they go straight on.
-/

namespace CodeGraph

open CodeGraph.Path (IsPlain)

namespace Path

theorem join_join_eq {p n m : String} (hp : p ≠ "") (hn : IsPlain n) (hm : IsPlain m) :
    join (join p n) m = join p (n ++ "/" ++ m) := by
  have habsolute : isAbsolute (n ++ "/" ++ m) = false := by
    rw [String.append_assoc, isAbsolute_append hn.ne_empty, isAbsolute_of_unslashed hn.unslashed]
  rw [join_join hp hn hm, join_plain hp hn, join]
  simp only [habsolute, hp, Bool.false_eq_true, or_self, if_false]
  split <;> simp only [String.append_assoc]

end Path

namespace Ignore

open Cache (Untaken untaken_concat)
open Volume (LeftAlone Straight)

variable {S : List String → Prop} {v w : Volume} {p directory : String} {q : List String}

theorem RuleSet.ofFile_congr (h : (w.readFile p).toOption = (v.readFile p).toOption)
    (directory : String) : RuleSet.ofFile w directory p = .ofFile v directory p := by
  have hrules : ∀ u : Volume, RuleSet.ofFile u directory p =
      { directory := withoutDot directory
        rules := ((u.readFile p).toOption.map rulesOf).getD [] } := by
    intro u
    rw [RuleSet.ofFile]
    cases u.readFile p <;> rfl
  rw [hrules, hrules, h]

/-! ## Directories -/

/-- Without a file in its place the directory of a repository is where it is expected. -/
theorem commonDirectory?_eq (hv : v.Unlinked) (hp : v.Straight directory q)
    (hgit : v.contentAt? (q ++ [".git"]) = none) :
    commonDirectory? v directory = some (Path.join directory ".git") := by
  rw [commonDirectory?]
  rcases hfind : v.find true (Path.join directory ".git") with e | ⟨r, content | _ | target⟩
  · simp only [Volume.metadata, hfind]
    rfl
  · obtain ⟨rfl, hi⟩ := (hp.join (n := ".git") (by decide)).of_find hv hfind
    rw [Volume.contentAt?_eq_some_iff.2 hi] at hgit
    cases hgit
  · simp only [Volume.metadata, hfind]
    rfl
  · simp only [Volume.metadata, hfind]
    rfl

/-- The rules of a directory are as before. -/
theorem Level.ofDirectory_spared (hv : v.Unlinked) (h : LeftAlone S Untaken v w)
    (hp : v.Straight directory q) (hgit : v.contentAt? (q ++ [".git"]) = none) :
    Level.ofDirectory w directory = .ofDirectory v directory := by
  have hcommon := commonDirectory?_eq hv hp hgit
  have hcommon' := commonDirectory?_eq h.unlinked (h.straight hv hp)
    ((h.content _ (untaken_concat.2 ⟨rfl, rfl⟩)).trans hgit)
  have hread : ∀ {p n : String} {q : List String}, v.Straight p q → IsPlain n → Cache.Alien n →
      ((w.readFile (Path.join p n)).toOption = (v.readFile (Path.join p n)).toOption) :=
    fun hp hn halien => h.toOption_readFile hv (hp.join hn) (.inr (untaken_concat.2 halien))
  have hexclude : (w.readFile (Path.join (Path.join directory ".git") "info/exclude")).toOption =
      (v.readFile (Path.join (Path.join directory ".git") "info/exclude")).toOption := by
    have hgitDirectory := hp.join (n := ".git") (by decide)
    have hjoin := Path.join_join_eq hgitDirectory.ne_empty (n := "info") (m := "exclude")
      (by decide) (by decide)
    rw [show "info/exclude" = "info" ++ "/" ++ "exclude" by decide, ← hjoin]
    exact hread (hgitDirectory.join (n := "info") (by decide)) (by decide) ⟨rfl, rfl⟩
  simp only [Level.ofDirectory, hcommon, hcommon', RuleSet.ofFile_congr hexclude,
    RuleSet.ofFile_congr (hread hp (n := ".ignore") (by decide) ⟨rfl, rfl⟩),
    RuleSet.ofFile_congr (hread hp (n := ".gitignore") (by decide) ⟨rfl, rfl⟩)]

/-! ## Persons -/

/-- The paths that are read for the rules of a person. -/
def Person.consulted (p : Person) (v : Volume) : List String :=
  (p.home.map fun h => Path.join h ".gitconfig").toList ++
    (p.configDirectory?.map fun d => Path.join d "git/config").toList ++ (p.ignoreFile? v).toList

/-- The paths that are read for the rules of a person go straight on to places whose names are not
those of files that this program writes. -/
def Person.Settled (p : Person) (v : Volume) : Prop :=
  ∀ path ∈ p.consulted v, ∃ q, v.Straight path q ∧ Untaken q

theorem configured?_congr {path : String} (person : Person)
    (h : (w.readFile path).toOption = (v.readFile path).toOption) :
    configured? w person path = configured? v person path := by
  have hconfigured : ∀ u : Volume, configured? u person path =
      (u.readFile path).toOption.bind fun content =>
        ((firstValue? true content.toList).bind fun bs => String.fromUTF8? ⟨bs.toArray⟩).map
          (expandTilde person) := by
    intro u
    rw [configured?]
    cases u.readFile path <;> rfl
  rw [hconfigured, hconfigured, h]

/-- The rules of a person are as before. -/
theorem Person.rules_spared {person : Person} (hv : v.Unlinked) (h : LeftAlone S Untaken v w)
    (hperson : person.Settled v) : person.rules w = person.rules v := by
  have hread : ∀ path ∈ person.consulted v,
      (w.readFile path).toOption = (v.readFile path).toOption := by
    intro path hpath
    obtain ⟨q, hq, huntaken⟩ := hperson path hpath
    exact h.toOption_readFile hv hq (.inr huntaken)
  have hfile : person.ignoreFile? w = person.ignoreFile? v := by
    have hhome : (person.home.bind fun h => configured? w person (Path.join h ".gitconfig")) =
        person.home.bind fun h => configured? v person (Path.join h ".gitconfig") := by
      cases hhome : person.home with
      | none => rfl
      | some home => exact configured?_congr person (hread _ (by simp [consulted, hhome]))
    have hconfig : (person.configDirectory?.bind fun d =>
          configured? w person (Path.join d "git/config")) =
        person.configDirectory?.bind fun d => configured? v person (Path.join d "git/config") := by
      cases hconfig : person.configDirectory? with
      | none => rfl
      | some d => exact configured?_congr person (hread _ (by simp [consulted, hconfig]))
    rw [ignoreFile?, ignoreFile?, hhome, hconfig]
  rw [rules, rules, hfile, h.current]
  cases hpath : person.ignoreFile? v with
  | none => rfl
  | some path => exact RuleSet.ofFile_congr (hread path (by simp [consulted, hpath])) _

/-! ## The root of a walk -/

theorem parts_ofParts {names : List String} (hnames : ∀ n ∈ names, IsPlain n) :
    Path.parts (Path.ofParts true names) = names := by
  rcases names with _ | ⟨n, names⟩
  · decide
  · obtain ⟨hn, hrest⟩ := List.forall_mem_cons.1 hnames
    have hsplit := Path.split_ofParts true (List.cons_ne_nil n names) fun m hm =>
      (hnames m hm).unslashed
    have hnone : names.filter (· != "") = names :=
      List.filter_eq_self.2 fun m hm => by simpa using (hrest m hm).ne_empty
    have hdots : names.filter (· != ".") = names :=
      List.filter_eq_self.2 fun m hm => by simpa using (hrest m hm).ne_dot
    rw [Path.parts, hsplit]
    simp [hn.ne_empty, hn.ne_dot, hnone, hdots]

/-- The rules at the root of a walk are as before. -/
theorem Levels.ofRoot_spared {person : Person} {root : List String} (hv : v.Unlinked)
    (h : LeftAlone S Untaken v w) (hroot : v.LeadsTo (Path.ofParts true root) root)
    (hgit : ∀ q, q <+: root → v.contentAt? (q ++ [".git"]) = none) (hperson : person.Settled v) :
    Levels.ofRoot w person (Path.ofParts true root) = .ofRoot v person (Path.ofParts true root) := by
  have hcanonical : ∀ {u : Volume}, u.LeadsTo (Path.ofParts true root) root →
      u.canonical (Path.ofParts true root) = .ok (Path.ofParts true root) := by
    intro u hu
    have hresolve : u.resolve true (Path.ofParts true root) = .ok (root, some .directory) := hu
    rw [Volume.canonical, Volume.find, hresolve]
    rfl
  have hlevel : ∀ q, q <+: root →
      Level.ofDirectory w (Path.ofParts true q) = .ofDirectory v (Path.ofParts true q) :=
    fun q hq => Level.ofDirectory_spared hv h
      (.leads (Volume.leadsTo_ofParts_of_prefix hv hroot hq)) (hgit q hq)
  have habove : (parents (Path.ofParts true root)).map (Level.ofDirectory w) =
      (parents (Path.ofParts true root)).map (Level.ofDirectory v) := by
    refine List.map_congr_left fun p hp => ?_
    rw [parents, parts_ofParts fun m hm => Volume.isPlain_of_mem hv hroot.item? hm] at hp
    obtain ⟨k, -, rfl⟩ := List.mem_map.1 hp
    exact hlevel _ (List.take_prefix k root)
  simp only [ofRoot, hcanonical hroot, hcanonical (h.leadsTo hv hroot), habove,
    hlevel root (List.prefix_refl root), Person.rules_spared hv h hperson]

end Ignore

end CodeGraph
