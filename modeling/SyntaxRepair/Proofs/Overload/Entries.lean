import SyntaxRepair.Overload.Groups
import SyntaxRepair.Proofs.Overload.Updating

/-!
# What overload groups hold

Overload groups are two levels of association lists: keys lead to definitions, and definitions
to missions.  Flattened, a group is a list of entries, and adding a type adds one entry
(`Groups.entries_add`).

`Groups.Sound` is what the two levels add to the entries: no key and no definition of a group
stands twice, and no definition is without a mission.  Hence the groups with several
definitions, and the missions that are dropped with them, can be told from the entries alone
(`Groups.Sound.mem_mergedMissions`).
-/

namespace SyntaxRepair

/-! ## Entries -/

/-- A mission under the key of its group and its definition. -/
structure GroupEntry where
  key : OverloadKey
  definition : Nat
  mission : Mission
deriving Repr, DecidableEq

/-- The entries of a definition in the group with a key. -/
def Overload.entries (key : OverloadKey) (overload : Overload) : List GroupEntry :=
  overload.missions.map fun mission => ⟨key, overload.definition, mission⟩

/-- The entries of a group. -/
def OverloadGroup.entries (group : OverloadGroup) : List GroupEntry :=
  group.overloads.flatMap (Overload.entries group.key)

/-- A group whose definitions differ, none of them without a mission. -/
structure OverloadGroup.Sound (group : OverloadGroup) : Prop where
  definitions : (group.overloads.map Overload.definition).Nodup
  occupied : ∀ overload ∈ group.overloads, overload.missions ≠ []

namespace OverloadGroup

variable {group : OverloadGroup}

theorem mem_entries {entry : GroupEntry} :
    entry ∈ group.entries ↔ entry.key = group.key ∧ ∃ overload ∈ group.overloads,
      overload.definition = entry.definition ∧ entry.mission ∈ overload.missions := by
  obtain ⟨key, definition, mission⟩ := entry
  simp only [entries, Overload.entries, List.mem_flatMap, List.mem_map, GroupEntry.mk.injEq]
  constructor
  · rintro ⟨overload, hoverload, mission, hmission, rfl, rfl, rfl⟩
    exact ⟨rfl, overload, hoverload, rfl, hmission⟩
  · rintro ⟨rfl, overload, hoverload, rfl, hmission⟩
    exact ⟨overload, hoverload, mission, hmission, rfl, rfl, rfl⟩

theorem entries_add (definition : Nat) (type : Text) (mission : Mission) :
    (group.add definition type mission).entries.Perm
      (group.entries ++ [⟨group.key, definition, mission⟩]) := by
  refine flatMap_updateFirst_perm (by simp) rfl fun overload _ hoverload => ?_
  rw [← of_decide_eq_true hoverload, Overload.entries, Overload.entries, Overload.add,
    List.map_append]
  exact List.Perm.refl _

theorem Sound.add (hsound : group.Sound) (definition : Nat) (type : Text) (mission : Mission) :
    (group.add definition type mission).Sound := by
  constructor
  · refine nodup_map_updateFirst definition (fun overload => ?_) rfl (fun _ => rfl)
      hsound.definitions
    exact decide_eq_true_iff
  · intro overload hmem
    rcases mem_of_mem_updateFirst hmem with hold | ⟨old, -, rfl⟩
    · exact hsound.occupied overload hold
    · simp [Overload.add]

theorem sound_add_of_overloads_eq_nil (h : group.overloads = []) (definition : Nat)
    (type : Text) (mission : Mission) : (group.add definition type mission).Sound := by
  refine Sound.add ⟨?_, ?_⟩ definition type mission
  · rw [h]
    exact List.nodup_nil
  · rw [h]
    exact List.forall_mem_nil _

/-- Whether a group has several definitions, which are merged. -/
def merges (group : OverloadGroup) : Bool := 2 ≤ group.overloads.length

/-- A definition of a group that is merged has another one beside it. -/
theorem Sound.exists_other (hsound : group.Sound) (hmerges : group.merges = true)
    (definition : Nat) : ∃ other ∈ group.overloads, other.definition ≠ definition := by
  obtain ⟨key, overloads⟩ := group
  match overloads, hmerges, hsound.definitions with
  | first :: second :: rest, _, hdefinitions =>
      by_cases hfirst : first.definition = definition
      · refine ⟨second, by simp, ?_⟩
        rintro rfl
        rw [List.map_cons, List.map_cons, List.nodup_cons] at hdefinitions
        exact hdefinitions.1 (hfirst ▸ List.mem_cons_self ..)
      · exact ⟨first, by simp, hfirst⟩

theorem merges_of_ne {first second : Overload} (hfirst : first ∈ group.overloads)
    (hsecond : second ∈ group.overloads) (hne : first ≠ second) : group.merges = true := by
  obtain ⟨key, overloads⟩ := group
  match overloads, hfirst, hsecond with
  | [], hfirst, _ => cases hfirst
  | [only], hfirst, hsecond =>
      exact absurd ((List.mem_singleton.mp hfirst).trans (List.mem_singleton.mp hsecond).symm) hne
  | _ :: _ :: rest, _, _ => exact decide_eq_true (Nat.le_add_left 2 rest.length)

end OverloadGroup

namespace Groups

variable {groups : Groups}

/-- The entries of all groups. -/
def entries (groups : Groups) : List GroupEntry := groups.flatMap OverloadGroup.entries

/-- The missions that are dropped when groups are merged. -/
def mergedMissions (groups : Groups) : List Mission :=
  (groups.filter OverloadGroup.merges).flatMap fun group =>
    group.overloads.flatMap Overload.missions

/-- Groups whose keys differ, each with definitions that differ. -/
structure Sound (groups : Groups) : Prop where
  keys : (groups.map OverloadGroup.key).Nodup
  each : ∀ group ∈ groups, group.Sound

theorem sound_nil : Sound [] := ⟨List.nodup_nil, List.forall_mem_nil _⟩

/-- Adding a type adds one entry. -/
theorem entries_add (key : OverloadKey) (definition : Nat) (type : Text) (mission : Mission) :
    (groups.add key definition type mission).entries.Perm
      (groups.entries ++ [⟨key, definition, mission⟩]) := by
  refine flatMap_updateFirst_perm (by simp) rfl fun group _ hgroup => ?_
  rw [← of_decide_eq_true hgroup]
  exact group.entries_add definition type mission

theorem Sound.add (hsound : groups.Sound) (key : OverloadKey) (definition : Nat) (type : Text)
    (mission : Mission) : (groups.add key definition type mission).Sound := by
  constructor
  · refine nodup_map_updateFirst key (fun group => ?_) rfl (fun _ => rfl) hsound.keys
    exact decide_eq_true_iff
  · intro group hmem
    rcases mem_of_mem_updateFirst hmem with hold | ⟨old, hold | rfl, rfl⟩
    · exact hsound.each group hold
    · exact (hsound.each old hold).add definition type mission
    · exact OverloadGroup.sound_add_of_overloads_eq_nil rfl definition type mission

/-- A mission is dropped exactly if another definition has an entry under its key. -/
theorem Sound.mem_mergedMissions (hsound : groups.Sound) {mission : Mission} :
    mission ∈ groups.mergedMissions ↔ ∃ entry ∈ groups.entries, entry.mission = mission ∧
      ∃ other ∈ groups.entries, other.key = entry.key ∧ other.definition ≠ entry.definition := by
  simp only [mergedMissions, entries, List.mem_flatMap, List.mem_filter]
  constructor
  · rintro ⟨group, ⟨hgroup, hmerges⟩, overload, hoverload, hmission⟩
    -- the group has a second definition, and that one is not without a mission
    obtain ⟨other, hother, hne⟩ :=
      (hsound.each group hgroup).exists_other hmerges overload.definition
    obtain ⟨mission', hmission'⟩ :=
      List.exists_mem_of_ne_nil _ ((hsound.each group hgroup).occupied other hother)
    refine ⟨⟨group.key, overload.definition, mission⟩, ⟨group, hgroup, ?_⟩, rfl,
      ⟨group.key, other.definition, mission'⟩, ⟨group, hgroup, ?_⟩, rfl, hne⟩
    · exact OverloadGroup.mem_entries.mpr ⟨rfl, overload, hoverload, rfl, hmission⟩
    · exact OverloadGroup.mem_entries.mpr ⟨rfl, other, hother, rfl, hmission'⟩
  · rintro ⟨entry, ⟨group, hgroup, hentry⟩, rfl, other, ⟨group', hgroup', hother⟩, hkey, hne⟩
    obtain ⟨hentryKey, overload, hoverload, hdefinition, hmission⟩ :=
      OverloadGroup.mem_entries.mp hentry
    obtain ⟨hotherKey, overload', hoverload', hdefinition', -⟩ :=
      OverloadGroup.mem_entries.mp hother
    -- entries under one key stand in one group
    have hsame : group' = group := by
      refine List.inj_on_of_nodup_map hsound.keys hgroup' hgroup ?_
      rw [← hotherKey, hkey, hentryKey]
    subst hsame
    refine ⟨group', ⟨hgroup, OverloadGroup.merges_of_ne hoverload hoverload' ?_⟩, overload,
      hoverload, hmission⟩
    rintro rfl
    exact hne (hdefinition'.symm.trans hdefinition)

end Groups

end SyntaxRepair
