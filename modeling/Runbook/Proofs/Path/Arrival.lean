import Runbook.Proofs.Path.Direct
import Runbook.Proofs.Tree.Walks

/-! # Resolving a path that leads somewhere

Resolving goes from link to link as a walk does, but remembers where each link led and does not look at what stands at the
end. Where a walk arrives, resolving arrives as well, at the path of the same place (`Path.resolveFrom_of_goes`). So a path
that leads to something can be resolved (`Files.resolve_of_stat`). -/

namespace Runbook

open Runbook.Tree Text

variable {t : Tree} {here mid place : Place} {name target text : Text} {names rest : List Text} {k depth : Nat}
  {files : Files} {p : Path} {node : Node}

namespace Path

variable {target? : Path → Option Text} {follow : Visited → Path → Text → Visited × Resolution}
  {visited visited' visited'' : Visited}

/-- The target of a link is found from the directory it is in. -/
def FindsLinks (t : Tree) (target? : Path → Option Text) : Prop :=
  ∀ here name, Canonical t here → t.node? here = some .directory → IsOwnName name → isTooLong name = false →
    ∀ target, target? ⟨.root, here ++ [name]⟩ = some target ↔ t.node? (here ++ [name]) = some (.link target)

/-- The links a search has found lead where walks along their targets arrive. -/
def Truthful (t : Tree) (visited : Visited) : Prop :=
  ∀ here name there target k place, List.lookup ⟨.root, here ++ [name]⟩ visited = some (some there) →
    t.node? (here ++ [name]) = some (.link target) →
    Goes t k (startOf here target) (splitOn '/' target) place → there = ⟨.root, place⟩

/-- A walk along the target of a link that is being resolved follows at least so many links. -/
def Pending (t : Tree) (visited : Visited) (k : Nat) : Prop :=
  ∀ here name target n place, List.lookup ⟨.root, here ++ [name]⟩ visited = some none →
    t.node? (here ++ [name]) = some (.link target) →
    Goes t n (startOf here target) (splitOn '/' target) place → k ≤ n

/-- After a search no link is being resolved that was not before it. -/
def Settled (visited visited' : Visited) : Prop :=
  ∀ p, List.lookup p visited' = some none → List.lookup p visited = some none

theorem Pending.mono {n : Nat} (h : Pending t visited n) (hk : k ≤ n) : Pending t visited k :=
  fun here name target n place hlookup hlink hgoes => hk.trans (h here name target n place hlookup hlink hgoes)

theorem Pending.settled (h : Pending t visited k) (hsettled : Settled visited visited') : Pending t visited' k :=
  fun here name target n place hlookup => h here name target n place (hsettled _ hlookup)

theorem root_inj (h : Path.mk .root (here ++ [name]) = ⟨.root, mid ++ [target]⟩) : here = mid ∧ name = target := by
  obtain ⟨hhere, hname⟩ := List.append_inj' (congrArg Path.names h) rfl
  exact ⟨hhere, List.singleton_inj.mp hname⟩

/-- A link whose target is begun has a longer way to go than its target. -/
theorem Pending.begin (h : Pending t visited (k + 1)) (hlink : t.node? (here ++ [name]) = some (.link target))
    (hgoes : Goes t k (startOf here target) (splitOn '/' target) place) :
    Pending t ((⟨.root, here ++ [name]⟩, none) :: visited) k := by
  intro here' name' target' n place' hlookup hlink' hgoes'
  by_cases hp : Path.mk .root (here' ++ [name']) = ⟨.root, here ++ [name]⟩
  · obtain ⟨rfl, rfl⟩ := root_inj hp
    rw [hlink] at hlink'
    cases hlink'
    exact (hgoes.unique hgoes').1.le
  · rw [lookup_cons_eq, if_neg hp] at hlookup
    exact Nat.le_of_succ_le (h here' name' target' n place' hlookup hlink' hgoes')

theorem Truthful.begin (h : Truthful t visited) (p : Path) : Truthful t ((p, none) :: visited) := by
  intro here name there target n place hlookup
  by_cases hp : Path.mk .root (here ++ [name]) = p
  · subst hp
    rw [List.lookup_cons_self] at hlookup
    cases hlookup
  · rw [lookup_cons_eq, if_neg hp] at hlookup
    exact h here name there target n place hlookup

theorem Truthful.conclude (h : Truthful t visited) (hlink : t.node? (here ++ [name]) = some (.link target))
    (hgoes : Goes t k (startOf here target) (splitOn '/' target) place) :
    Truthful t ((⟨.root, here ++ [name]⟩, some ⟨.root, place⟩) :: visited) := by
  intro here' name' there target' n place' hlookup hlink' hgoes'
  by_cases hp : Path.mk .root (here' ++ [name']) = ⟨.root, here ++ [name]⟩
  · obtain ⟨rfl, rfl⟩ := root_inj hp
    rw [List.lookup_cons_self] at hlookup
    rw [hlink] at hlink'
    cases hlookup
    cases hlink'
    rw [(hgoes.unique hgoes').2]
  · rw [lookup_cons_eq, if_neg hp] at hlookup
    exact h here' name' there target' n place' hlookup hlink' hgoes'

/-- Once its target has been resolved, a link is not being resolved any more. -/
theorem Settled.conclude {p : Path} {found : Path} (h : Settled ((p, none) :: visited) visited') :
    Settled visited ((p, some found) :: visited') := by
  intro q hq
  by_cases hp : q = p
  · subst hp
    rw [List.lookup_cons_self] at hq
    cases hq
  · rw [lookup_cons_eq, if_neg hp] at hq
    simpa only [lookup_cons_eq, if_neg hp] using h q hq

theorem Settled.trans (h : Settled visited visited') (h' : Settled visited' visited'') : Settled visited visited'' :=
  fun p hp => h p (h' p hp)

/-- A search arrives at the path of a place, and what it remembers is right. -/
def Arrives (t : Tree) (visited : Visited) (place : Place) (r : Visited × Resolution) : Prop :=
  r.2 = .done ⟨.root, place⟩ ∧ Truthful t r.1 ∧ Settled visited r.1

theorem Arrives.after {r : Visited × Resolution} (h : Settled visited visited') (hr : Arrives t visited' place r) :
    Arrives t visited place r := ⟨hr.1, hr.2.1, h.trans hr.2.2⟩

/-- If the targets of links are followed right that need fewer links, what needs as many is resolved right. -/
theorem resolveWith_of_goes (hlinks : FindsLinks t target?)
    (hfollow : ∀ {visited : Visited} {here place : Place} {target : Text} {n : Nat}, n < depth → Canonical t here →
      Truthful t visited → Pending t visited n → Goes t n (startOf here target) (splitOn '/' target) place →
      Arrives t visited place (follow visited ⟨.root, here⟩ target))
    (hk : k ≤ depth) (hhere : Canonical t here) (htrue : Truthful t visited) (hpending : Pending t visited k)
    (h : Goes t k here names place) : Arrives t visited place (resolveWith target? follow visited ⟨.root, here⟩ names) := by
  induction names generalizing k here visited with
  | nil =>
    cases h
    exact ⟨rfl, htrue, fun _ hp => hp⟩
  | cons name rest ih =>
    rw [resolveWith]
    cases h with
    | stay hdir hname h =>
      rw [if_pos (by simpa using hname)]
      exact ih hk hhere htrue hpending h
    | up hdir h =>
      have hstep : Path.step ⟨.root, here⟩ ['.', '.'] = ⟨.root, here.dropLast⟩ :=
        congrArg (Path.mk .root) (collapseStep_up fun hmem => (hhere.names _ hmem).ne_dots rfl)
      rw [if_neg (by decide)]
      simp only [if_true, hstep]
      exact ih hk hhere.parent htrue hpending h
    | down hdir hname hlong hnode hlink h =>
      have hstep : Path.step ⟨.root, here⟩ name = ⟨.root, here ++ [name]⟩ :=
        congrArg (Path.mk .root) (collapseStep_down hname.ne_dots)
      have hnone : target? ⟨.root, here ++ [name]⟩ = none := by
        rw [Option.eq_none_iff_forall_ne_some]
        intro target htarget
        rw [hlinks here name hhere hdir hname hlong, hnode] at htarget
        exact hlink target (Option.some.inj htarget)
      rw [if_neg hname.not_stay]
      simp only [if_neg hname.ne_dots, hstep, hnone]
      exact ih hk (hhere.child hdir hname hlong hnode hlink) htrue hpending h
    | follow hdir hname hlong hnode h =>
      rename_i n target
      have hstep : Path.step ⟨.root, here⟩ name = ⟨.root, here ++ [name]⟩ :=
        congrArg (Path.mk .root) (collapseStep_down hname.ne_dots)
      have htarget : target? ⟨.root, here ++ [name]⟩ = some target :=
        (hlinks here name hhere hdir hname hlong target).mpr hnode
      obtain ⟨k₁, k₂, mid, rfl, hfirst, hrest⟩ := goes_append_iff.mp h
      have hmid := hfirst.canonical (hhere.startOf target)
      rw [if_neg hname.not_stay]
      simp only [if_neg hname.ne_dots, hstep, htarget]
      split
      · -- The link has been met before, so that it leads where it led then.
        rename_i there hlookup
        rw [htrue here name there target k₁ mid hlookup hnode hfirst]
        exact ih (by omega) hmid htrue (hpending.mono (by omega)) hrest
      · -- It is not inside its own target, for this would be a shorter way to where the target leads.
        rename_i hlookup
        have hle := hpending here name target k₁ mid hlookup hnode hfirst
        omega
      · have hbegun := (hpending.mono (by omega : k₁ + 1 ≤ _)).begin hnode hfirst
        have harrives := hfollow (by omega) hhere (htrue.begin _) hbegun hfirst
        generalize follow ((⟨.root, here ++ [name]⟩, none) :: visited) ⟨.root, here⟩ target = r at harrives
        obtain ⟨visited', found⟩ := r
        obtain ⟨rfl, htrue', hsettled⟩ := harrives
        have hsettled' : Settled visited ((⟨.root, here ++ [name]⟩, some ⟨.root, mid⟩) :: visited') := hsettled.conclude
        exact (ih (by omega) hmid (htrue'.conclude hnode hfirst)
          ((hpending.mono (by omega)).settled hsettled') hrest).after hsettled'

/-- Where a walk along the parts of a text arrives, resolving the text arrives as well, if the links may be inside one
    another as deep as there are links on the walk. -/
theorem resolveFrom_of_goes (hlinks : FindsLinks t target?) (hk : k < depth) (hhere : Canonical t here)
    (htrue : Truthful t visited) (hpending : Pending t visited k)
    (h : Goes t k (startOf here text) (splitOn '/' text) place) :
    Arrives t visited place (resolveFrom target? depth visited ⟨.root, here⟩ text) := by
  induction depth generalizing k here visited text place with
  | zero => omega
  | succ depth ih =>
    have hstart : (if startsWith "/" text then Path.mk .root [] else ⟨.root, here⟩) = ⟨.root, startOf here text⟩ := by
      unfold startOf
      split <;> rfl
    rw [resolveFrom, hstart]
    exact resolveWith_of_goes hlinks (fun hn hhere htrue hpending h => ih hn hhere htrue hpending h)
      (Nat.le_of_lt_succ hk) (hhere.startOf text) htrue hpending h

theorem truthful_nil (t : Tree) : Truthful t [] := fun _ _ _ _ _ _ hlookup => by cases hlookup

theorem pending_nil (t : Tree) (k : Nat) : Pending t [] k := fun _ _ _ _ _ hlookup => by cases hlookup

/-- The text of an absolute path is walked along as its names are. -/
theorem goes_toText (hp : p.Proper) (ha : p.isAbsolute = true) (h : Goes t k [] p.names place) :
    Goes t k [] (splitOn '/' p.toText) place := by
  have hroot : Goes t k [] (splitOn '/' (toText ⟨.root, p.names⟩)) place := by
    have hnames : Path.Proper ⟨.root, p.names⟩ := hp
    rw [splitOn_toText hnames]
    refine .stay rfl (Or.inl rfl) ?_
    split
    · rename_i hnil
      rw [hnil] at h
      exact .stay rfl (Or.inl rfl) h
    · exact h
  obtain ⟨anchor, names⟩ := p
  cases anchor with
  | relative => cases ha
  | root => exact hroot
  | doubled => exact .stay rfl (Or.inl rfl) hroot

theorem resolve_of_goes (hlinks : FindsLinks t target?) (hp : p.Proper) (ha : p.isAbsolute = true) (hk : k < maxDepth)
    (h : Goes t k [] p.names place) : p.resolve target? = .done ⟨.root, place⟩ := by
  have habsolute : startsWith "/" p.toText = true := by
    obtain ⟨anchor, names⟩ := p
    cases anchor with
    | relative => cases ha
    | root => rfl
    | doubled => rfl
  have hgoes : Goes t k (startOf [] p.toText) (splitOn '/' p.toText) place := by
    rw [startOf, if_pos habsolute]
    exact goes_toText hp ha h
  obtain ⟨depth, hdepth⟩ : ∃ depth, maxDepth = depth + 1 := ⟨_, rfl⟩
  have harrives := (resolveFrom_of_goes hlinks hk (canonical_nil t) (truthful_nil t) (pending_nil t k) hgoes).1
  rw [hdepth, resolveFrom, if_pos habsolute] at harrives
  rw [resolve, hdepth, resolveFrom, if_pos habsolute, harrives]

end Path

namespace Files

/-- Every link can be looked up by the path of its place. -/
def SeesLinks (files : Files) : Prop :=
  ∀ place target, files.tree.node? place = some (.link target) → ∃ q, files.reach ⟨.root, place⟩ = .ok q

theorem SeesLinks.like {files' : Files} (h : files.SeesLinks) (hlike : files.Like files') : files'.SeesLinks := by
  intro place target hlink
  rw [hlike.reach_eq]
  exact h place target (hlike.tree.link_iff.mp hlink)

theorem SeesLinks.findsLinks (h : files.SeesLinks) : Path.FindsLinks files.tree files.target? := by
  intro here name hhere hdir hname hlong target
  have hlocate : files.tree.locate ⟨.root, here ++ [name]⟩ = .ok (here ++ [name]) :=
    (locate_child_eq_ok_iff (p := ⟨.root, here⟩) hname.ne_dots).mpr
      ⟨hlong, here, directory_eq_ok_iff.mpr ⟨hhere.goes.walkFrom (Nat.zero_le _), hdir⟩, rfl⟩
  unfold target? Files.locate
  cases hreach : files.reach ⟨.root, here ++ [name]⟩ with
  | error e =>
    refine ⟨fun hnone => (by cases hnone), fun hlink => ?_⟩
    obtain ⟨q, hq⟩ := h _ target hlink
    rw [hreach] at hq
    cases hq
  | ok q =>
    obtain rfl := reach_isAbsolute (p := ⟨.root, here ++ [name]⟩) rfl hreach
    simp only [hlocate]
    split
    · simp_all
    · simp_all

/-- A path that leads to something is resolved to the path of its place. -/
theorem resolve_of_stat (hlinks : files.SeesLinks) (hp : p.Proper) (ha : p.isAbsolute = true)
    (h : files.stat p = .ok (place, node)) : files.resolve p = .ok ⟨.root, place⟩ := by
  obtain ⟨hwalk, hnode⟩ := stat_eq_ok h
  rw [Path.join, if_pos ha] at hwalk
  obtain ⟨k, hk, hgoes⟩ := walkFrom_eq_ok_iff.mp hwalk
  have hplace := canonical_of_walk hwalk
  have hresolve : p.resolve files.target? = .done ⟨.root, place⟩ :=
    Path.resolve_of_goes hlinks.findsLinks hp ha (Nat.lt_of_le_of_lt hk (by decide)) hgoes
  have habsolute : files.absolute ⟨.root, place⟩ = ⟨.root, place⟩ := by
    have honward : Path.Onward place := fun name hname =>
      ⟨(hplace.names name hname).ne_nil, (hplace.names name hname).ne_dot, (hplace.names name hname).ne_dots⟩
    exact congrArg (Path.mk .root) ((Path.foldl_collapseStep honward []).trans (List.nil_append _))
  have hself : files.tree.walk ⟨.root, place⟩ = .ok place := hplace.goes.walkFrom (Nat.zero_le _)
  have hstat : files.stat ⟨.root, place⟩ ≠ .error .linkLoop := stat_ne_linkLoop rfl (by simp [hself])
  unfold Files.resolve
  rw [hresolve]
  simp only [Option.map_some, habsolute]

end Files

end Runbook
