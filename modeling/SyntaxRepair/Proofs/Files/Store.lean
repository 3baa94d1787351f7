import SyntaxRepair.Files.Store
import SyntaxRepair.Proofs.Tables
import Mathlib.Data.List.Infix
import Mathlib.Logic.Basic

/-!
# Reading what was written

A store that a file is written to holds the file at its place and is as it was everywhere else
(`FileStore.write_eq_ok`).  In particular a path leads to a place afterwards exactly if it led there
before, because what a new file stands in has been there before: only places that are known can
be gone through.
-/

namespace SyntaxRepair

open Utf8 (Octets)

namespace FileStore

variable {store after : FileStore} {place other target : List Text} {entry : Entry} {path : Path}
  {contents : Octets}

/-! ## What places hold -/

/-- A place that holds something, or that something in the store stands below. -/
def Known (store : FileStore) (place : List Text) : Prop :=
  place <+: store.home ∨ ∃ item ∈ store.entries, place <+: item.1

/-- A known place that no entry is about is a directory. -/
theorem entry?_of_lookup_eq_none (h : store.entries.lookup place = none) :
    (store.Known place ∧ store.entry? place = some .directory) ∨
      (¬ store.Known place ∧ store.entry? place = none) := by
  by_cases hknown : store.Known place
  · refine .inl ⟨hknown, ?_⟩
    simpa [Known, entry?, h, or_iff_not_imp_left] using hknown
  · refine .inr ⟨hknown, ?_⟩
    simpa [Known, entry?, h] using hknown

theorem known_of_entry? (h : store.entry? place = some entry) : store.Known place := by
  cases hlookup : store.entries.lookup place with
  | none =>
      rcases entry?_of_lookup_eq_none hlookup with ⟨hknown, -⟩ | ⟨-, hentry⟩
      · exact hknown
      · rw [hentry] at h
        cases h
  | some held =>
      exact .inr ⟨(place, held), Table.mem_of_lookup hlookup, List.prefix_refl place⟩

theorem lookup_put :
    (store.put place entry).entries.lookup other =
      if other = place then some entry else store.entries.lookup other :=
  Table.lookup_put

/-- A new entry makes known its own place and those above it. -/
theorem known_put :
    (store.put place entry).Known other ↔ store.Known other ∨ other <+: place := by
  rw [Known, Known, put, or_assoc]
  refine or_congr_right ?_
  dsimp only
  split
  · next hany =>
      obtain ⟨held, hheld, hkey⟩ := List.any_eq_true.mp hany
      rw [decide_eq_true_iff] at hkey
      constructor
      · rintro ⟨item, hitem, hother⟩
        obtain ⟨old, hold, rfl⟩ := List.mem_map.mp hitem
        split at hother
        · exact .inr hother
        · exact .inl ⟨old, hold, hother⟩
      · rintro (⟨item, hitem, hother⟩ | hother)
        · refine ⟨_, List.mem_map_of_mem hitem, ?_⟩
          split
          · next hplace => exact hplace ▸ hother
          · exact hother
        · refine ⟨_, List.mem_map_of_mem hheld, ?_⟩
          rw [if_pos hkey]
          exact hother
  · simp [or_and_right, exists_or]

theorem entry?_put_self : FileStore.entry? (store.put place entry) place = some entry := by
  unfold entry?
  rw [lookup_put, if_pos rfl]

/-- What stands elsewhere does not change, if the places above the new entry are known. -/
theorem entry?_put_of_ne (habove : ∀ above, above <+: place → above ≠ place → store.Known above)
    (hother : other ≠ place) :
    FileStore.entry? (store.put place entry) other = store.entry? other := by
  have hlookup : (store.put place entry).entries.lookup other = store.entries.lookup other := by
    rw [lookup_put, if_neg hother]
  cases hheld : store.entries.lookup other with
  | some held =>
      unfold entry?
      rw [hlookup, hheld]
  | none =>
      have hknown : (store.put place entry).Known other ↔ store.Known other := by
        rw [known_put]
        exact or_iff_left_of_imp fun hprefix => habove other hprefix hother
      rw [hheld] at hlookup
      rcases entry?_of_lookup_eq_none hlookup with ⟨hput, hentry⟩ | ⟨hput, hentry⟩ <;>
        rcases entry?_of_lookup_eq_none hheld with ⟨hstore, hsame⟩ | ⟨hstore, hsame⟩
      · rw [hentry, hsame]
      · exact absurd (hknown.mp hput) hstore
      · exact absurd (hknown.mpr hstore) hput
      · rw [hentry, hsame]

/-! ## Where paths lead -/

theorem walk_cons_eq_ok {start : List Text} {segment : Text} {rest : List Text} :
    store.walk start (segment :: rest) = .ok target ↔
      store.entry? start = some .directory ∧ Utf8.octetCount segment ≤ nameLimit ∧
        store.walk (next start segment) rest = .ok target := by
  rw [walk]
  cases store.entry? start with
  | none => simp
  | some entry =>
      cases entry with
      | file contents => simp
      | directory =>
          by_cases hlimit : nameLimit < Utf8.octetCount segment
          · simp [hlimit, Nat.not_le.mpr hlimit]
          · simp [hlimit, Nat.le_of_not_lt hlimit]

/-- A walk goes through the front of a path first. -/
theorem walk_append_eq_ok {front back : List Text} {start : List Text} :
    store.walk start (front ++ back) = .ok target ↔
      ∃ between, store.walk start front = .ok between ∧ store.walk between back = .ok target := by
  induction front generalizing start with
  | nil => simp [walk]
  | cons segment rest ih =>
      simp only [List.cons_append, walk_cons_eq_ok, ih]
      constructor
      · rintro ⟨hentry, hlimit, between, hrest, hback⟩
        exact ⟨between, ⟨hentry, hlimit, hrest⟩, hback⟩
      · rintro ⟨between, ⟨hentry, hlimit, hrest⟩, hback⟩
        exact ⟨hentry, hlimit, between, hrest, hback⟩

/-- All that stands above a place that was reached is known. -/
theorem known_above_walk {segments : List Text} {start : List Text}
    (hstart : ∀ above, above <+: start → above ≠ start → store.Known above)
    (h : store.walk start segments = .ok target) :
    ∀ above, above <+: target → above ≠ target → store.Known above := by
  induction segments generalizing start with
  | nil =>
      cases h
      exact hstart
  | cons segment rest ih =>
      obtain ⟨hentry, -, hrest⟩ := walk_cons_eq_ok.mp h
      -- everything down to the start is known, since it can be gone through
      have hknown : ∀ above, above <+: start → store.Known above := by
        intro above habove
        by_cases hsame : above = start
        · exact hsame ▸ known_of_entry? hentry
        · exact hstart above habove hsame
      refine ih ?_ hrest
      intro above habove hne
      rw [next] at habove hne
      split at habove
      · exact hknown above (habove.trans (List.dropLast_prefix start))
      · next hdots =>
          rw [if_neg hdots] at hne
          rcases List.prefix_concat_iff.mp habove with hsame | hprefix
          · exact absurd hsame hne
          · exact hknown above hprefix

/-- A new file stands in no one's way: a path that went through its place led nowhere before,
too. -/
theorem walk_put (hplace : store.entry? place ≠ some .directory)
    (habove : ∀ above, above <+: place → above ≠ place → store.Known above)
    {segments : List Text} {start : List Text} :
    (store.put place (.file contents)).walk start segments = .ok target ↔
      store.walk start segments = .ok target := by
  induction segments generalizing start with
  | nil => exact Iff.rfl
  | cons segment rest ih =>
      rw [walk_cons_eq_ok, walk_cons_eq_ok, ih]
      refine and_congr_left fun _ => ?_
      by_cases hstart : start = place
      · subst hstart
        rw [entry?_put_self]
        exact iff_of_false (by simp) hplace
      · rw [entry?_put_of_ne habove hstart]

theorem locate_eq_ok :
    store.locate path = .ok target ↔
      path.text.contains (.char '\x00') = false ∧ Utf8.octetCount path.text ≤ pathLimit ∧
        store.walk (if path.slashes = 0 then store.home else []) path.segments = .ok target := by
  rw [locate]
  cases path.text.contains (.char '\x00') with
  | true => simp
  | false =>
      by_cases hlimit : pathLimit < Utf8.octetCount path.text
      · simp [hlimit, Nat.not_le.mpr hlimit]
      · simp [hlimit, Nat.le_of_not_lt hlimit]

theorem walk_ne_nullInPath {segments : List Text} {start : List Text} :
    store.walk start segments ≠ .error .nullInPath := by
  induction segments generalizing start with
  | nil => simp [walk]
  | cons segment rest ih =>
      rw [walk]
      split
      · simp
      · simp
      · split
        · simp
        · exact ih

/-- Only a null character itself is told as one. -/
theorem locate_eq_nullInPath :
    store.locate path = .error .nullInPath ↔ path.text.contains (.char '\x00') = true := by
  rw [locate]
  cases path.text.contains (.char '\x00') with
  | true => simp
  | false =>
      by_cases hlimit : pathLimit < Utf8.octetCount path.text
      · simp [hlimit]
      · simp [hlimit, walk_ne_nullInPath]

theorem known_above_locate (h : store.locate path = .ok target) :
    ∀ above, above <+: target → above ≠ target → store.Known above := by
  refine known_above_walk ?_ (locate_eq_ok.mp h).2.2
  intro above habove hne
  split at habove
  · exact .inl habove
  · next hroot =>
      rw [if_neg hroot] at hne
      exact absurd (List.prefix_nil.mp habove) hne

/-! ## Reading and writing -/

/-- A file has been written to a place, and nothing else has happened. -/
structure Wrote (before : FileStore) (place : List Text) (contents : Octets) (after : FileStore) :
    Prop where
  entry_eq : after.entry? place = some (.file contents)
  entry_eq_of_ne : ∀ other, other ≠ place → after.entry? other = before.entry? other
  locate_iff : ∀ path target, after.locate path = .ok target ↔ before.locate path = .ok target

/-- A file that was written stands at the place that its path leads to. -/
theorem write_eq_ok (h : store.write path contents = .ok after) :
    ∃ place, store.locate path = .ok place ∧ store.Wrote place contents after := by
  rw [write] at h
  split at h
  · cases h
  · next place hlocate =>
      split at h
      · cases h
      · next hplace =>
          cases h
          have habove := known_above_locate hlocate
          refine ⟨place, hlocate, entry?_put_self, fun other => entry?_put_of_ne habove,
            fun path target => ?_⟩
          rw [locate_eq_ok, locate_eq_ok, walk_put (fun hentry => hplace hentry) habove]
          exact Iff.rfl

theorem read_eq_ok :
    store.read path = .ok contents ↔
      ∃ place, store.locate path = .ok place ∧ store.entry? place = some (.file contents) := by
  rw [read]
  cases store.locate path with
  | error problem => simp
  | ok place =>
      simp only [Except.ok.injEq, exists_eq_left']
      rcases store.entry? place with _ | octets | _ <;> simp

/-- A fault is about the path, and tells of a null character only where one is. -/
theorem read_eq_error {fault : FileFault} (h : store.read path = .error fault) :
    fault.path = path ∧
      (fault.problem = .nullInPath → path.text.contains (.char '\x00') = true) := by
  rw [read] at h
  cases hlocate : store.locate path with
  | error problem =>
      rw [hlocate] at h
      cases h
      refine ⟨rfl, fun hnull => ?_⟩
      obtain rfl : problem = .nullInPath := hnull
      exact locate_eq_nullInPath.mp hlocate
  | ok place =>
      rw [hlocate] at h
      dsimp only at h
      split at h <;> cases h <;> exact ⟨rfl, fun hnull => by cases hnull⟩

theorem read_eq_nullInPath :
    store.read path = .error ⟨.nullInPath, path⟩ ↔
      path.text.contains (.char '\x00') = true := by
  refine ⟨fun h => (read_eq_error h).2 rfl, fun h => ?_⟩
  rw [read, locate_eq_nullInPath.mpr h]

/-- Files at other places are as they were. -/
theorem Wrote.read_iff {before : FileStore} {octets : Octets}
    (h : before.Wrote place contents after) (hne : before.locate path ≠ .ok place) :
    after.read path = .ok octets ↔ before.read path = .ok octets := by
  rw [read_eq_ok, read_eq_ok]
  refine exists_congr fun found => ?_
  rw [h.locate_iff path found]
  refine and_congr_right fun hfound => ?_
  rw [h.entry_eq_of_ne found fun hsame => hne (hsame ▸ hfound)]

theorem Wrote.read_eq {before : FileStore} (h : before.Wrote place contents after)
    (hlocate : before.locate path = .ok place) : after.read path = .ok contents :=
  read_eq_ok.mpr ⟨place, (h.locate_iff path place).mpr hlocate, h.entry_eq⟩

/-- To write the same again changes nothing. -/
theorem Wrote.exists_write_again {before : FileStore} (h : before.Wrote place contents after)
    (hlocate : before.locate path = .ok place) :
    ∃ again, after.write path contents = .ok again ∧
      ∀ other, again.entry? other = after.entry? other := by
  have hplace : after.locate path = .ok place := (h.locate_iff path place).mpr hlocate
  have hwrite : after.write path contents = .ok (after.put place (.file contents)) := by
    simp only [write, hplace, h.entry_eq]
  obtain ⟨spot, hspot, hagain⟩ := write_eq_ok hwrite
  obtain rfl := Except.ok.inj (hplace.symm.trans hspot)
  refine ⟨_, hwrite, fun other => ?_⟩
  by_cases hother : other = place
  · rw [hother, hagain.entry_eq, h.entry_eq]
  · exact hagain.entry_eq_of_ne other hother

end FileStore

end SyntaxRepair
