import SyntaxRepair.Proofs.Files.Store
import Mathlib.Data.List.TakeWhile

/-!
# Where targets stand

Sources whose plain forms are written one after another get into the way of each other if the
target of one of them is a later source, or if two of them have one target.  Otherwise they are
apart (`FileStore.Apart`).  Files in the extended language always are (`FileStore.apart_of_suffix`):
all their targets end in the suffix of plain files, and the rest of the name tells the source.
-/

namespace SyntaxRepair

namespace Path

variable {path target : Path}

/-- A path in the extended language is named by a stem and the suffix, and its target by the stem
and the other suffix. -/
theorem exists_stem (h : path.suffix = extendedSuffix) :
    ∃ stem : Text, path.name = stem ++ extendedSuffix ∧
      path.target? = some (path.withName (stem ++ plainSuffix)) := by
  have hname : ∃ stem : Text, path.name = stem ++ extendedSuffix := by
    rw [suffix] at h
    split at h
    · next hdot =>
        simp only [Bool.and_eq_true, List.contains_iff_mem] at hdot
        -- read from behind, the name goes on with a dot where the suffix is over
        have hsplit := List.takeWhile_append_dropWhile (p := (· ≠ CodePoint.char '.'))
          (l := path.name.reverse)
        cases hbehind : path.name.reverse.dropWhile (· ≠ CodePoint.char '.') with
        | nil =>
            have hnone := List.dropWhile_eq_nil_iff.mp hbehind (.char '.')
              (List.mem_reverse.mpr hdot.1.1)
            simp at hnone
        | cons c rest =>
            have hne : path.name.reverse.dropWhile (· ≠ CodePoint.char '.') ≠ [] := by
              rw [hbehind]
              exact List.cons_ne_nil c rest
            have hc := List.head_dropWhile_not (· ≠ CodePoint.char '.') hne
            simp only [hbehind, List.head_cons, decide_eq_false_iff_not, not_not] at hc
            rw [hbehind, hc] at hsplit
            refine ⟨rest.reverse, ?_⟩
            calc path.name
                = (path.name.reverse.takeWhile (· ≠ CodePoint.char '.') ++
                    .char '.' :: rest).reverse := by
                  rw [hsplit, List.reverse_reverse]
              _ = rest.reverse ++ .char '.' ::
                    (path.name.reverse.takeWhile (· ≠ CodePoint.char '.')).reverse := by
                  rw [List.reverse_append, List.reverse_cons, List.append_assoc,
                    List.singleton_append]
              _ = rest.reverse ++ extendedSuffix := congrArg _ h
    · cases h
  obtain ⟨stem, hstem⟩ := hname
  refine ⟨stem, hstem, ?_⟩
  rw [target?, if_pos h, hstem, List.length_append, Nat.add_sub_cancel, List.take_left]

theorem segments_eq_of_name {name : Text} (hname : path.name = name) (hne : name ≠ []) :
    path.segments = path.segments.dropLast ++ [name] := by
  rw [Path.name] at hname
  cases hlast : path.segments.getLast? with
  | none =>
      rw [hlast] at hname
      exact absurd hname.symm hne
  | some last =>
      rw [hlast] at hname
      obtain rfl : last = name := hname
      exact (List.dropLast_append_getLast? last hlast).symm

end Path

namespace FileStore

variable {store : FileStore} {source target : Path} {place spot : List Text}

/-- The sources, in the order in which their targets are written: no target stands at the place of a
later source, and only one file has a target at one place. -/
def Apart (store : FileStore) (sources : List Path) : Prop :=
  sources.Pairwise fun earlier later =>
    ∀ target place spot, earlier.target? = some target → store.locate target = .ok place →
      store.locate later = .ok spot →
        place ≠ spot ∧
          ∀ other, later.target? = some other → store.locate other = .ok place →
            ∀ first, store.locate earlier = .ok first → first = spot

/-- Sources stay apart as long as paths lead where they led. -/
theorem Apart.congr {after : FileStore} {sources : List Path} (h : store.Apart sources)
    (hlocate : ∀ path place, after.locate path = .ok place ↔ store.locate path = .ok place) :
    after.Apart sources := by
  unfold Apart
  simp only [hlocate]
  exact h

/-- A path with a plain name leads to that name in a directory. -/
theorem locate_eq_concat {path : Path} {name : Text} (hname : path.name = name)
    (hlength : 2 < name.length) (h : store.locate path = .ok place) :
    ∃ parent,
      store.walk (if path.slashes = 0 then store.home else []) path.segments.dropLast =
        .ok parent ∧ place = parent ++ [name] := by
  have hne : name ≠ [] := List.ne_nil_of_length_pos (by omega)
  have hwalk := (locate_eq_ok.mp h).2.2
  rw [Path.segments_eq_of_name hname hne, walk_append_eq_ok] at hwalk
  obtain ⟨parent, hparent, hlast⟩ := hwalk
  refine ⟨parent, hparent, ?_⟩
  have hnext := (walk_cons_eq_ok.mp hlast).2.2
  have hplain : name ≠ ".." := by
    rintro rfl
    exact absurd hlength (by decide)
  rw [next, if_neg hplain] at hnext
  exact (Except.ok.inj hnext).symm

section

variable {stem : Text}

theorem length_plain : 2 < (stem ++ Path.plainSuffix).length := by
  rw [List.length_append, show Path.plainSuffix.length = 3 from rfl]
  omega

theorem length_extended : 2 < (stem ++ Path.extendedSuffix).length := by
  rw [List.length_append, show Path.extendedSuffix.length = 4 from rfl]
  omega

/-- A file in the extended language stands where its target stands, but for the suffix. -/
theorem exists_places (hname : source.name = stem ++ Path.extendedSuffix)
    (h : store.locate (source.withName (stem ++ Path.plainSuffix)) = .ok place) :
    ∃ parent, place = parent ++ [stem ++ Path.plainSuffix] ∧
      ∀ spot, store.locate source = .ok spot → spot = parent ++ [stem ++ Path.extendedSuffix] := by
  have hplain : (source.withName (stem ++ Path.plainSuffix)).name = stem ++ Path.plainSuffix := by
    simp [Path.withName, Path.name]
  obtain ⟨parent, hparent, rfl⟩ := locate_eq_concat hplain length_plain h
  refine ⟨parent, rfl, fun spot hspot => ?_⟩
  obtain ⟨other, hother, rfl⟩ := locate_eq_concat hname length_extended hspot
  simp only [Path.withName, List.dropLast_concat] at hparent
  rw [Except.ok.inj (hother.symm.trans hparent)]

end

theorem plain_ne_extended {first second : Text} :
    first ++ Path.plainSuffix ≠ second ++ Path.extendedSuffix := by
  intro h
  have hlast := congrArg List.getLast? h
  rw [List.getLast?_append_of_ne_nil _ (by decide), List.getLast?_append_of_ne_nil _ (by decide)]
    at hlast
  exact absurd hlast (by decide)

/-- **Files in the extended language.**  They never get into each other's way. -/
theorem apart_of_suffix (store : FileStore) {sources : List Path}
    (h : ∀ source ∈ sources, source.suffix = Path.extendedSuffix) : store.Apart sources := by
  refine List.pairwise_iff_forall_sublist.mpr fun {earlier later} hsublist => ?_
  intro target place spot htarget hplace hspot
  obtain ⟨stem, hname, hstem⟩ := Path.exists_stem (h earlier (hsublist.subset (by simp)))
  obtain ⟨second, hsecond, hother⟩ := Path.exists_stem (h later (hsublist.subset (by simp)))
  obtain rfl := Option.some.inj (hstem.symm.trans htarget)
  obtain ⟨parent, rfl, hfirst⟩ := exists_places hname hplace
  constructor
  · rintro rfl
    obtain ⟨directory, -, hsame⟩ := locate_eq_concat hsecond length_extended hspot
    exact plain_ne_extended (List.append_inj' hsame rfl |>.2 |> List.singleton_inj.mp)
  · intro other hlater hplaced first hlocated
    obtain rfl := Option.some.inj (hother.symm.trans hlater)
    obtain ⟨directory, hsame, hspots⟩ := exists_places hsecond hplaced
    obtain ⟨rfl, hnames⟩ := List.append_inj' hsame rfl
    obtain rfl := List.append_cancel_right (List.singleton_inj.mp hnames)
    rw [hfirst first hlocated, hspots spot hspot]

end FileStore

end SyntaxRepair
