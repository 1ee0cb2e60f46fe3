/-
The names of a path. A path falls into names at its slashes, and one that goes on behind a slash
falls into the names of its two parts. Names lead from place to place: an empty name and `.` stay,
`..` goes up, and names that do not climb above where they start lead below it from anywhere.
-/
import Mathlib.Data.String.Basic
import StackBridge.FileTree

namespace StackBridge

open String (utf8Len ofList)
open String.Pos (Raw)

/-- The cuts that are still to come, when some characters are behind the last cut. -/
theorem splitOnAux_slash (before begun rest : List Char) (found : List String) :
    (ofList (before ++ begun ++ rest)).splitOnAux "/" ⟨utf8Len before⟩
        ⟨utf8Len (before ++ begun)⟩ 0 found =
      found.reverse ++ (rest.splitOnPPrepend (· == '/') begun.reverse).map ofList := by
  have hget : Raw.get "/" 0 = '/' := by decide
  have hnext : Raw.next "/" 0 = ⟨1⟩ := by decide
  have hend : Raw.atEnd "/" ⟨1⟩ = true := by decide
  induction rest generalizing before begun found with
  | nil =>
      have hpart := String.extract_of_valid before begun []
      rw [← String.utf8Len_append] at hpart
      rw [String.splitOnAux.eq_def, if_pos ((String.atEnd_of_valid (before ++ begun) []).2 rfl)]
      simpa [-String.ofList_append] using hpart
  | cons c rest ih =>
      have hpart := String.extract_of_valid before begun (c :: rest)
      rw [← String.utf8Len_append] at hpart
      have hmore := (String.atEnd_of_valid (before ++ begun) (c :: rest)).not.2 (by simp)
      rw [String.splitOnAux.eq_def, if_neg hmore, String.get_of_valid, List.headD_cons, hget,
        List.splitOnPPrepend_cons_eq_if]
      by_cases hslash : c = '/'
      · subst hslash
        have hbehind := ih (before ++ begun ++ ['/']) [] (ofList begun :: found)
        have hback : (⟨utf8Len (before ++ begun) + '/'.utf8Size⟩ : Raw).unoffsetBy ⟨1⟩ =
            ⟨utf8Len (before ++ begun)⟩ := rfl
        rw [if_pos (beq_self_eq_true _), if_pos (beq_self_eq_true _)]
        simp only [String.next_of_valid, hnext, hend, if_true, hback, hpart]
        simpa [-String.ofList_append, Nat.add_assoc] using hbehind
      · have hbegun := ih before (begun ++ [c]) found
        have hstay : (⟨utf8Len (before ++ begun)⟩ : Raw).unoffsetBy 0 =
            ⟨utf8Len (before ++ begun)⟩ := rfl
        rw [if_neg (by simpa using hslash), if_neg (by simpa using hslash), hstay,
          String.next_of_valid]
        simpa [-String.ofList_append, Nat.add_assoc] using hbegun

/-- A text falls apart at its slashes. -/
theorem splitOn_slash (text : String) :
    text.splitOn "/" = (text.toList.splitOn '/').map ofList := by
  rw [String.splitOn, if_neg (by decide)]
  simpa [-String.ofList_append, List.splitOn_eq_splitOnP] using
    splitOnAux_slash [] [] text.toList []

/-- What stands behind a slash falls apart by itself. -/
theorem splitOn_append_slash (left right : String) :
    (left ++ "/" ++ right).splitOn "/" = left.splitOn "/" ++ right.splitOn "/" := by
  have hchars : (left ++ "/" ++ right).toList = left.toList ++ '/' :: right.toList := by simp
  rw [splitOn_slash, splitOn_slash, splitOn_slash, hchars, List.splitOn_append_cons_self,
    List.map_append]

/-- What ends a text and has no slash stays with the last part. -/
theorem splitOn_append_of_not_mem (front : List Char) {ending : List Char} (hnone : '/' ∉ ending) :
    ∃ parts last, (front ++ ending).splitOn '/' = parts ++ [last ++ ending] := by
  induction front with
  | nil => exact ⟨[], [], List.splitOn_eq_singleton hnone⟩
  | cons c front ih =>
      obtain ⟨parts, last, hparts⟩ := ih
      rw [List.cons_append, List.splitOn_cons_eq_if_modifyHead, hparts]
      by_cases hslash : c = '/'
      · exact ⟨[] :: parts, last, by simp [hslash]⟩
      · rw [if_neg (by simpa using hslash)]
        cases parts with
        | nil => exact ⟨[], c :: last, rfl⟩
        | cons part parts => exact ⟨(c :: part) :: parts, last, rfl⟩

namespace FileTree

/-- Where a name leads without what is above the start. -/
def stepped (location : Location) (name : String) : Option Location :=
  if name = "" || name = "." then some location
  else if name = ".." then location.tail?
  else some (name :: location)

/-- Where names lead if they do not climb above the start. -/
def followed (location : Location) (names : List String) : Option Location :=
  names.foldlM stepped location

/-- Where names lead from a place of the machine. At the root `..` stays. -/
def reached (location : Location) (names : List String) : Location :=
  names.foldl step location

variable {host : Host} {tree : FileTree host} {location place : Location} {name : String}
  {names more : List String}

theorem followed_cons : followed location (name :: names) =
    (stepped location name).bind (followed · names) :=
  List.foldlM_cons ..

theorem followed_append : followed location (names ++ more) =
    (followed location names).bind (followed · more) :=
  List.foldlM_append ..

/-- A name stays where it is, goes up, or goes down to a place of that name. -/
theorem stepped_cases (name : String) :
    (name ≠ ".." ∧ ∀ location, stepped location name = some location) ∨
      (name = ".." ∧ ∀ location, stepped location name = location.tail?) ∨
      (name ≠ ".." ∧ ∀ location, stepped location name = some (name :: location)) := by
  by_cases hstays : (name = "" || name = ".") = true
  · have hname : name ≠ ".." := by
      rintro rfl
      revert hstays
      decide
    exact Or.inl ⟨hname, fun location => if_pos hstays⟩
  · by_cases hup : name = ".."
    · exact Or.inr (Or.inl ⟨hup, fun location => (if_neg hstays).trans (if_pos hup)⟩)
    · exact Or.inr (Or.inr ⟨hup, fun location => (if_neg hstays).trans (if_neg hup)⟩)

theorem stepped_of_proper (hname : name ∉ ["", ".", ".."]) :
    stepped location name = some (name :: location) := by
  simp only [List.mem_cons, List.not_mem_nil, or_false, not_or] at hname
  simp [stepped, hname]

theorem stepped_eq_none_iff : stepped location name = none ↔ name = ".." ∧ location = [] := by
  rcases stepped_cases name with ⟨hname, hstays⟩ | ⟨hname, hup⟩ | ⟨hname, hdown⟩
  · simp [hstays, hname]
  · rw [hup]
    cases location <;> simp [hname]
  · simp [hdown, hname]

/-- A step that does not need what is above leads to the same below any place. -/
theorem stepped_below (hstep : stepped location name = some place) (base : Location) :
    stepped (location ++ base) name = some (place ++ base) := by
  rcases stepped_cases name with ⟨-, hstays⟩ | ⟨-, hup⟩ | ⟨-, hdown⟩
  · rw [hstays] at hstep ⊢
    cases hstep
    rfl
  · rw [hup] at hstep ⊢
    cases location with
    | nil => cases hstep
    | cons last parent =>
        cases hstep
        rfl
  · rw [hdown] at hstep ⊢
    cases hstep
    rfl

theorem followed_below (hfollowed : followed location names = some place) (base : Location) :
    followed (location ++ base) names = some (place ++ base) := by
  induction names generalizing location with
  | nil =>
      cases hfollowed
      rfl
  | cons name names ih =>
      rw [followed_cons] at hfollowed ⊢
      obtain ⟨next, hstep, hrest⟩ := Option.bind_eq_some_iff.1 hfollowed
      rw [stepped_below hstep, Option.bind_some, ih hrest]

/-- Whether a place is somewhere below another one. -/
def Below (base place : Location) : Prop :=
  base <:+ place ∧ place ≠ base

instance (base place : Location) : Decidable (Below base place) :=
  inferInstanceAs (Decidable (base <:+ place ∧ place ≠ base))

theorem below_append {below : Location} (hbelow : below ≠ []) (base : Location) :
    Below base (below ++ base) :=
  ⟨List.suffix_append below base, by simpa using hbelow⟩

/-- Whether names climb above where they start: at some `..` the names before it have led back to
the start. -/
def Climbs (names : List String) : Prop :=
  ∃ front back, names = front ++ ".." :: back ∧ followed [] front = some []

/-- Names lead nowhere exactly if some of them climb above the start. -/
theorem followed_eq_none_iff : followed location names = none ↔
    ∃ front back, names = front ++ ".." :: back ∧ followed location front = some [] := by
  induction names generalizing location with
  | nil => simp [followed]
  | cons name names ih =>
      rw [followed_cons]
      cases hstep : stepped location name with
      | none =>
          obtain ⟨rfl, rfl⟩ := stepped_eq_none_iff.1 hstep
          exact ⟨fun _ => ⟨[], names, rfl, rfl⟩, fun _ => rfl⟩
      | some next =>
          rw [Option.bind_some, ih]
          constructor
          · rintro ⟨front, back, rfl, hfront⟩
            exact ⟨name :: front, back, rfl, by rw [followed_cons, hstep, Option.bind_some, hfront]⟩
          · rintro ⟨front, back, hnames, hfront⟩
            cases front with
            | nil =>
                cases hnames
                cases hfront
                rw [stepped_eq_none_iff.2 ⟨rfl, rfl⟩] at hstep
                cases hstep
            | cons first front =>
                cases hnames
                rw [followed_cons, hstep, Option.bind_some] at hfront
                exact ⟨front, back, rfl, hfront⟩

instance (names : List String) : Decidable (Climbs names) :=
  decidable_of_iff (followed [] names = none) followed_eq_none_iff

/-- Names that climb lead where what is behind the climb leads from one place higher. -/
theorem followed_of_climb {front back : List String} (hfront : followed [] front = some [])
    (last : String) (parent : Location) :
    followed (last :: parent) (front ++ ".." :: back) = followed parent back := by
  have hreturns := followed_below hfront (last :: parent)
  rw [List.nil_append] at hreturns
  rw [followed_append, hreturns, Option.bind_some, followed_cons]
  rfl

theorem reached_cons : reached location (name :: names) = reached (step location name) names := rfl

theorem reached_append :
    reached location (names ++ more) = reached (reached location names) more :=
  List.foldl_append ..

/-- A step that does not need what is above leads where the same step of a walk leads. -/
theorem step_of_stepped (hstep : stepped location name = some place) :
    step location name = place := by
  unfold stepped at hstep
  unfold step
  split
  case isTrue hstays =>
    rw [if_pos hstays] at hstep
    exact Option.some.inj hstep
  case isFalse hstays =>
    rw [if_neg hstays] at hstep
    split
    case isTrue hup =>
      rw [if_pos hup] at hstep
      cases location with
      | nil => cases hstep
      | cons last parent => exact Option.some.inj hstep
    case isFalse hup =>
      rw [if_neg hup] at hstep
      exact Option.some.inj hstep

theorem reached_of_followed (hfollowed : followed location names = some place) :
    reached location names = place := by
  induction names generalizing location with
  | nil =>
      cases hfollowed
      rfl
  | cons name names ih =>
      rw [followed_cons] at hfollowed
      obtain ⟨next, hstep, hrest⟩ := Option.bind_eq_some_iff.1 hfollowed
      rw [reached_cons, step_of_stepped hstep, ih hrest]

/-- With what is above the start at hand, names that climb lead on from one place higher. -/
theorem reached_of_climb {front back : List String} (hfront : followed [] front = some [])
    (last : String) (parent : Location) :
    reached (last :: parent) (front ++ ".." :: back) = reached parent back := by
  have hreturns := reached_of_followed (followed_below hfront (last :: parent))
  rw [List.nil_append] at hreturns
  rw [reached_append, hreturns, reached_cons]
  rfl

theorem reached_of_proper (hname : name ∉ ["", ".", ".."]) :
    reached location (names ++ [name]) = name :: reached location names := by
  rw [reached_append, reached_cons, step_of_stepped (stepped_of_proper hname)]
  rfl

/-- A step that can be made leads where the name says. -/
theorem pass_eq_ok (hpass : tree.pass location name = .ok place) : place = step location name := by
  unfold pass at hpass
  cases hentry : tree.entry location with
  | directory =>
      rw [hentry] at hpass
      simp only at hpass
      cases hfault : if name = "" then none else host.fault? .search location with
      | none =>
          rw [hfault] at hpass
          exact (Except.ok.inj hpass).symm
      | some fault =>
          rw [hfault] at hpass
          cases hpass
  | _ =>
      rw [hentry] at hpass
      cases hpass

/-- A name leads on from a directory where it may be looked for. -/
theorem pass_of_directory (hentry : tree.entry location = .directory)
    (hsearch : host.fault? .search location = none) (name : String) :
    tree.pass location name = .ok (step location name) := by
  unfold pass
  rw [hentry, hsearch, ite_self]
  rfl

@[simp] theorem walk_nil : tree.walk location [] = .ok location := rfl

theorem walk_cons_of_directory (hentry : tree.entry location = .directory)
    (hsearch : host.fault? .search location = none) (name : String) (names : List String) :
    tree.walk location (name :: names) = tree.walk (step location name) names := by
  rw [walk, List.foldlM_cons, pass_of_directory hentry hsearch]
  rfl

theorem walk_append : tree.walk location (names ++ more) =
    tree.walk location names >>= fun place => tree.walk place more :=
  List.foldlM_append ..

/-- A walk that gets somewhere gets where its names lead. -/
theorem walk_eq_ok (hwalk : tree.walk location names = .ok place) :
    place = reached location names := by
  induction names generalizing location with
  | nil => exact (Except.ok.inj hwalk).symm
  | cons name names ih =>
      rw [walk, List.foldlM_cons] at hwalk
      cases hpass : tree.pass location name with
      | error fault =>
          rw [hpass] at hwalk
          cases hwalk
      | ok next =>
          rw [hpass] at hwalk
          rw [reached_cons, ← pass_eq_ok hpass]
          exact ih hwalk

theorem locate_eq_ok {path : String} (hlocate : tree.locate path = .ok place) :
    place = reached (host.startOf path) (path.splitOn "/") := by
  unfold locate at hlocate
  split at hlocate
  case isTrue => cases hlocate
  case isFalse => exact walk_eq_ok hlocate

/-- A path leads where its names lead. -/
theorem locate_of_names {path : String} (hpath : path ≠ "")
    (hnames : (path.toList.splitOn '/').map ofList = names) :
    tree.locate path = tree.walk (host.startOf path) names := by
  rw [locate, if_neg hpath, splitOn_slash, hnames]

/-- A path that goes on behind a slash begins at the same top. -/
theorem startsWith_append_slash {directory : String} (hdirectory : directory ≠ "") (name : String) :
    (directory ++ "/" ++ name).startsWith "/" = directory.startsWith "/" := by
  rw [Bool.eq_iff_iff, String.startsWith_string_iff, String.startsWith_string_iff]
  obtain ⟨c, chars, hchars⟩ := List.exists_cons_of_ne_nil
    (mt String.toList_eq_nil_iff.1 hdirectory)
  simp [hchars]

/-- It leads on from where its beginning leads. -/
theorem locate_append_slash {directory : String} (hdirectory : directory ≠ "") (name : String) :
    tree.locate (directory ++ "/" ++ name) =
      tree.locate directory >>= fun base => tree.walk base (name.splitOn "/") := by
  have hnonempty : directory ++ "/" ++ name ≠ "" := by simp [String.append_eq_empty_iff]
  rw [locate, locate, if_neg hnonempty, if_neg hdirectory, Host.startOf,
    startsWith_append_slash hdirectory, splitOn_append_slash, walk_append]
  rfl

end FileTree

end StackBridge
