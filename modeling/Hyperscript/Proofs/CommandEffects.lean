import Mathlib.Logic.Function.Basic
import Hyperscript.Proofs.CommandReport

/-!
# What the command changes

The command prints or writes only when it has the whole script, and this is the last thing it does.
So it either delivers the script to the one place that the arguments name, or it leaves all files as
they are and prints nothing but its report.

The exception is a delivery that breaks off.  A file is emptied before anything is written to it, so
it is left with what has come through.
-/

namespace Hyperscript.CommandLine

namespace FileSystem

/-! ## Following a path -/

/-- A directory that one may go through. -/
structure Opens (fs : FileSystem) (here above : Nat) (names : List (String × Nat)) : Prop where
  entry : fs.entries[here]? = some (.directory above names)
  search : fs.denies here .search = false

/-- Where names lead from a directory, through at most `links` links. -/
inductive Leads (fs : FileSystem) : (links here : Nat) → List String → Place → Prop where
  | here {links here : Nat} : Leads fs links here [] (.found here)
  | up {links here above : Nat} {names : List (String × Nat)} {rest : List String} {place : Place} :
      fs.Opens here above names → Leads fs links above rest place →
      Leads fs links here (".." :: rest) place
  | vacant {links here above : Nat} {names : List (String × Nat)} {name : String} :
      fs.Opens here above names → name ≠ ".." → names.lookup name = none →
      Leads fs links here [name] (.vacant here name)
  | link {links here above next : Nat} {names : List (String × Nat)} {name : String}
      {target : Path} {rest : List String} {place : Place} :
      fs.Opens here above names → name ≠ ".." → names.lookup name = some next →
      fs.entries[next]? = some (.link target) →
      Leads fs links (fs.start here target) (target.names ++ rest) place →
      Leads fs (links + 1) here (name :: rest) place
  | step {links here above next : Nat} {names : List (String × Nat)} {name : String} {e : Entry}
      {rest : List String} {place : Place} :
      fs.Opens here above names → name ≠ ".." → names.lookup name = some next →
      fs.entries[next]? = some e → (∀ target, e ≠ .link target) → Leads fs links next rest place →
      Leads fs links here (name :: rest) place

section Leads

variable {fs : FileSystem} {links here : Nat} {names : List String} {place : Place}

theorem Leads.walk (h : fs.Leads links here names place) :
    fs.walk links here names = .ok place := by
  induction h with
  | @here links => cases links <;> rfl
  | @up links _ _ _ _ _ hopens _ ih =>
    cases links <;> simpa [FileSystem.walk, walkWith, hopens.entry, hopens.search] using ih
  | @vacant links _ _ _ _ hopens hup hname =>
    cases links <;> simp [FileSystem.walk, walkWith, hopens.entry, hopens.search, hup, hname]
  | link hopens hup hname hlink _ ih =>
    simpa [FileSystem.walk, walkWith, hopens.entry, hopens.search, hup, hname, hlink] using ih
  | @step links _ _ _ _ _ e _ _ hopens hup hname hentry hne _ ih =>
    cases e with
    | link target => exact absurd rfl (hne target)
    | directory | file =>
      cases links <;>
        simpa [FileSystem.walk, walkWith, hopens.entry, hopens.search, hup, hname, hentry] using ih

/-- The cases of a walk, with `onLink` for what comes after a link. -/
theorem leads_of_walkWith {onLink : Nat → Path → List String → Except Obstacle Place}
    (hlink : ∀ {here above next names name target rest}, fs.Opens here above names → name ≠ ".." →
      names.lookup name = some next → fs.entries[next]? = some (.link target) →
      onLink here target rest = .ok place → fs.Leads links here (name :: rest) place)
    (h : fs.walkWith onLink here names = .ok place) : fs.Leads links here names place := by
  induction names generalizing here with
  | nil =>
    cases h
    exact .here
  | cons name rest ih =>
    rw [walkWith] at h
    split at h
    · rename_i above names hentry
      split at h
      · cases h
      rename_i hsearch
      have hopens : fs.Opens here above names := ⟨hentry, by simpa using hsearch⟩
      split at h
      · rename_i hup
        subst hup
        exact .up hopens (ih h)
      rename_i hup
      split at h
      · rename_i hname
        split at h
        · rename_i hlast
          obtain rfl : rest = [] := List.isEmpty_iff.1 hlast
          cases h
          exact .vacant hopens hup hname
        · cases h
      · rename_i next hname
        split at h
        · rename_i target hnext
          exact hlink hopens hup hname hnext h
        · rename_i e hne hnext
          exact .step hopens hup hname hnext (fun target he => hne target (he ▸ rfl)) (ih h)
        · cases h
    · cases h
    · cases h

theorem leads_of_walk (h : fs.walk links here names = .ok place) :
    fs.Leads links here names place := by
  induction links generalizing here names with
  | zero => exact leads_of_walkWith (fun _ _ _ _ h => by cases h) h
  | succ links ih =>
    exact leads_of_walkWith (fun hopens hup hname hnext h => .link hopens hup hname hnext (ih h)) h

theorem locate_eq_ok_iff {p : Path} :
    fs.locate p = .ok place ↔
      p.isValid = true ∧ fs.Leads maxLinks (fs.start fs.here p) p.names place := by
  unfold locate
  split
  next hvalid => exact ⟨fun h => ⟨hvalid, leads_of_walk h⟩, fun h => h.2.walk⟩
  next hvalid => exact ⟨nofun, fun h => absurd h.1 hvalid⟩

/-- A vacant place is in a directory that does not have the name. -/
theorem Leads.vacant_directory {directory : Nat} {name : String}
    (h : fs.Leads links here names (.vacant directory name)) :
    ∃ above names, fs.entries[directory]? = some (.directory above names) ∧
      names.lookup name = none := by
  generalize hplace : Place.vacant directory name = place at h
  induction h with
  | here => cases hplace
  | vacant hopens _ hname =>
    cases hplace
    exact ⟨_, _, hopens.entry, hname⟩
  | up _ _ ih | link _ _ _ _ _ ih | step _ _ _ _ _ _ ih => exact ih hplace

end Leads

/-! ## Writing a file -/

/-- A directory still has its names, and there is at most a file where it had a vacant place: the one
that `fill` says. -/
structure KeepsNames (after : FileSystem) (fill : Place → Place) (directory : Nat)
    (names names' : List (String × Nat)) : Prop where
  kept : ∀ {name : String} {next : Nat}, names.lookup name = some next →
    names'.lookup name = some next
  vacant : ∀ {name : String}, names.lookup name = none →
    (names'.lookup name = none ∧ fill (.vacant directory name) = .vacant directory name) ∨
    ∃ next contents, names'.lookup name = some next ∧
      after.entries[next]? = some (.file contents) ∧ fill (.vacant directory name) = .found next

/-- Everything that was there is still there: directories may have more names, and files other
contents.  Where a path led to a vacant place, it now leads to what `fill` says. -/
structure Grows (fs after : FileSystem) (fill : Place → Place) : Prop where
  root : after.root = fs.root
  here : after.here = fs.here
  denied : after.denied = fs.denied
  found : ∀ entry, fill (.found entry) = .found entry
  link : ∀ {entry : Nat} {target : Path}, fs.entries[entry]? = some (.link target) →
    after.entries[entry]? = some (.link target)
  file : ∀ {entry : Nat} {contents : Contents}, fs.entries[entry]? = some (.file contents) →
    ∃ contents', after.entries[entry]? = some (.file contents')
  directory : ∀ {entry above : Nat} {names : List (String × Nat)},
    fs.entries[entry]? = some (.directory above names) →
    ∃ names', after.entries[entry]? = some (.directory above names') ∧
      after.KeepsNames fill entry names names'

section Grows

variable {fs after : FileSystem} {fill : Place → Place}

theorem Grows.opens (h : fs.Grows after fill) {here above : Nat} {names : List (String × Nat)}
    (hopens : fs.Opens here above names) :
    ∃ names', after.Opens here above names' ∧ after.KeepsNames fill here names names' := by
  obtain ⟨names', hentry, hnames⟩ := h.directory hopens.entry
  refine ⟨names', ⟨hentry, ?_⟩, hnames⟩
  rw [denies, h.denied]
  exact hopens.search

theorem Grows.entry (h : fs.Grows after fill) {entry : Nat} {e : Entry}
    (hentry : fs.entries[entry]? = some e) (hne : ∀ target, e ≠ .link target) :
    ∃ e', after.entries[entry]? = some e' ∧ ∀ target, e' ≠ .link target := by
  cases e with
  | link target => exact absurd rfl (hne target)
  | file contents =>
    obtain ⟨contents', hfile⟩ := h.file hentry
    exact ⟨_, hfile, nofun⟩
  | directory above names =>
    obtain ⟨names', hdirectory, -⟩ := h.directory hentry
    exact ⟨_, hdirectory, nofun⟩

theorem Grows.leads (h : fs.Grows after fill) {links here : Nat} {names : List String}
    {place : Place} (hleads : fs.Leads links here names place) :
    after.Leads links here names (fill place) := by
  induction hleads with
  | here =>
    rw [h.found]
    exact .here
  | up hopens _ ih =>
    obtain ⟨_, hopens', -⟩ := h.opens hopens
    exact .up hopens' ih
  | vacant hopens hup hname =>
    obtain ⟨_, hopens', hnames⟩ := h.opens hopens
    rcases hnames.vacant hname with ⟨hnone, hfill⟩ | ⟨next, contents, hsome, hfile, hfill⟩
    · rw [hfill]
      exact .vacant hopens' hup hnone
    · rw [hfill]
      exact .step hopens' hup hsome hfile nofun .here
  | link hopens hup hname hlink _ ih =>
    obtain ⟨_, hopens', hnames⟩ := h.opens hopens
    refine .link hopens' hup (hnames.kept hname) (h.link hlink) ?_
    rw [start, h.root]
    exact ih
  | step hopens hup hname hentry hne _ ih =>
    obtain ⟨_, hopens', hnames⟩ := h.opens hopens
    obtain ⟨_, hentry', hne'⟩ := h.entry hentry hne
    exact .step hopens' hup (hnames.kept hname) hentry' hne' ih

theorem Grows.locate (h : fs.Grows after fill) {p : Path} {place : Place}
    (hlocate : fs.locate p = .ok place) : after.locate p = .ok (fill place) := by
  obtain ⟨hvalid, hleads⟩ := locate_eq_ok_iff.1 hlocate
  refine locate_eq_ok_iff.2 ⟨hvalid, ?_⟩
  rw [start, h.here, h.root]
  exact h.leads hleads

end Grows

/-- What is in the file at a place of the table, if there is one. -/
def content (fs : FileSystem) (entry : Nat) : Option Contents :=
  match fs.entries[entry]? with
  | some (.file contents) => some contents
  | _ => none

/-- A file at the path has been written and everything else is as it was: the other files have what
they had, and paths that led to an entry still lead to it. -/
structure Wrote (fs after : FileSystem) (p : Path) (contents : Contents) (entry : Nat) : Prop where
  /-- It is the file to which the path led, or there was none. -/
  target : fs.locate p = .ok (.found entry) ∨
    fs.content entry = none ∧ ∃ directory name, fs.locate p = .ok (.vacant directory name)
  located : after.locate p = .ok (.found entry)
  content : after.content = Function.update fs.content entry (some contents)
  kept : ∀ q other, fs.locate q = .ok (.found other) → after.locate q = .ok (.found other)

section Put

variable {fs : FileSystem} {p : Path} {entry : Nat} {old contents : Contents}

theorem getElem?_put (hentry : fs.entries[entry]? = some (.file old)) (i : Nat) :
    (fs.put entry contents).entries[i]? =
      if i = entry then some (.file contents) else fs.entries[i]? := by
  obtain ⟨hlt, -⟩ := List.getElem?_eq_some_iff.1 hentry
  rw [put, List.getElem?_set]
  by_cases hi : i = entry
  · simp [hi, hlt]
  · simp [hi, Ne.symm hi]

theorem getElem?_put_of_ne_file (hentry : fs.entries[entry]? = some (.file old)) {i : Nat}
    {e : Entry} (hi : fs.entries[i]? = some e) (he : ∀ c, e ≠ .file c) :
    (fs.put entry contents).entries[i]? = some e := by
  have hne : i ≠ entry := by
    rintro rfl
    rw [hentry] at hi
    exact he old (Option.some.inj hi).symm
  rw [getElem?_put hentry, if_neg hne, hi]

theorem content_put (hentry : fs.entries[entry]? = some (.file old)) :
    (fs.put entry contents).content = Function.update fs.content entry (some contents) := by
  funext i
  rw [Function.update_apply, content, getElem?_put hentry]
  by_cases hi : i = entry
  · simp [hi]
  · simp [hi, content]

theorem grows_put (hentry : fs.entries[entry]? = some (.file old)) :
    fs.Grows (fs.put entry contents) id where
  root := rfl
  here := rfl
  denied := rfl
  found _ := rfl
  link hi := getElem?_put_of_ne_file hentry hi nofun
  file {i c} hi := by
    rw [getElem?_put hentry]
    split
    · exact ⟨contents, rfl⟩
    · exact ⟨c, hi⟩
  directory {_ _ names} hi :=
    ⟨names, getElem?_put_of_ne_file hentry hi nofun, fun hname => hname,
      fun hname => .inl ⟨hname, rfl⟩⟩

theorem wrote_put (hlocate : fs.locate p = .ok (.found entry))
    (hentry : fs.entries[entry]? = some (.file old)) :
    fs.Wrote (fs.put entry contents) p contents entry where
  target := .inl hlocate
  located := (grows_put hentry).locate hlocate
  content := content_put hentry
  kept _ _ hother := (grows_put hentry).locate hother

end Put

section Add

variable {fs : FileSystem} {p : Path} {directory above : Nat} {name : String}
  {names : List (String × Nat)} {contents : Contents}

theorem getElem?_add (hdirectory : fs.entries[directory]? = some (.directory above names))
    (i : Nat) :
    (fs.add directory name contents).entries[i]? =
      if i = directory then some (.directory above (names ++ [(name, fs.entries.length)]))
      else if i = fs.entries.length then some (.file contents)
      else fs.entries[i]? := by
  obtain ⟨hlt, -⟩ := List.getElem?_eq_some_iff.1 hdirectory
  have hlength : (fs.entries.modify directory
      (Entry.withName name fs.entries.length)).length = fs.entries.length :=
    List.length_modify ..
  rw [add]
  by_cases hi : i = directory
  · subst hi
    rw [List.getElem?_append_left (by omega), List.getElem?_modify, hdirectory]
    simp [Entry.withName]
  · rw [if_neg hi]
    by_cases hnew : i = fs.entries.length
    · simp [hnew, hlength]
    · rw [if_neg hnew]
      rcases Nat.lt_or_ge i fs.entries.length with hi' | hi'
      · rw [List.getElem?_append_left (by omega), List.getElem?_modify]
        simp [Ne.symm hi]
      · rw [List.getElem?_eq_none (by simp; omega), List.getElem?_eq_none hi']

theorem getElem?_add_of_ne (hdirectory : fs.entries[directory]? = some (.directory above names))
    {i : Nat} {e : Entry} (hi : fs.entries[i]? = some e) (hne : i ≠ directory) :
    (fs.add directory name contents).entries[i]? = some e := by
  obtain ⟨hlt, -⟩ := List.getElem?_eq_some_iff.1 hi
  rw [getElem?_add hdirectory, if_neg hne, if_neg (Nat.ne_of_lt hlt), hi]

theorem content_add (hdirectory : fs.entries[directory]? = some (.directory above names)) :
    (fs.add directory name contents).content =
      Function.update fs.content fs.entries.length (some contents) := by
  obtain ⟨hlt, -⟩ := List.getElem?_eq_some_iff.1 hdirectory
  funext i
  rw [Function.update_apply, content, getElem?_add hdirectory]
  by_cases hi : i = directory
  · subst hi
    rw [if_pos rfl, if_neg (Nat.ne_of_lt hlt), content, hdirectory]
  · rw [if_neg hi]
    by_cases hnew : i = fs.entries.length
    · simp [hnew]
    · simp [hnew, content]

/-- What becomes of a place when a file is added. -/
def fillAt (directory : Nat) (name : String) (entry : Nat) (place : Place) : Place :=
  if place = .vacant directory name then .found entry else place

theorem grows_add (hdirectory : fs.entries[directory]? = some (.directory above names))
    (hname : names.lookup name = none) :
    fs.Grows (fs.add directory name contents) (fillAt directory name fs.entries.length) where
  root := rfl
  here := rfl
  denied := rfl
  found _ := by simp [fillAt]
  link {i target} hi := by
    refine getElem?_add_of_ne hdirectory hi ?_
    rintro rfl
    simp [hdirectory] at hi
  file {i c} hi := by
    refine ⟨c, getElem?_add_of_ne hdirectory hi ?_⟩
    rintro rfl
    simp [hdirectory] at hi
  directory {i above' names'} hi := by
    by_cases hne : i = directory
    · -- the directory with the new file
      subst hne
      obtain ⟨rfl, rfl⟩ : above = above' ∧ names = names' := by simpa [hdirectory] using hi
      have hnew : (fs.add i name contents).entries[fs.entries.length]? = some (.file contents) := by
        obtain ⟨hlt, -⟩ := List.getElem?_eq_some_iff.1 hi
        rw [getElem?_add hi, if_neg (Nat.ne_of_gt hlt), if_pos rfl]
      refine ⟨names ++ [(name, fs.entries.length)], ?_, fun hother => ?_, fun {other} hother => ?_⟩
      · rw [getElem?_add hi, if_pos rfl]
      · rw [List.lookup_append, hother, Option.some_or]
      · by_cases hsame : other = name
        · subst hsame
          exact .inr ⟨_, contents, by simp [List.lookup_append, hother], hnew, by simp [fillAt]⟩
        · have hbeq : (other == name) = false := beq_eq_false_iff_ne.2 hsame
          exact .inl ⟨by simp [List.lookup_append, List.lookup_cons, hother, hbeq],
            by simp [fillAt, hsame]⟩
    · exact ⟨names', getElem?_add_of_ne hdirectory hi hne, fun hother => hother,
        fun hother => .inl ⟨hother, by simp [fillAt, hne]⟩⟩

theorem wrote_add (hlocate : fs.locate p = .ok (.vacant directory name)) :
    fs.Wrote (fs.add directory name contents) p contents fs.entries.length := by
  obtain ⟨above, names, hdirectory, hname⟩ := (locate_eq_ok_iff.1 hlocate).2.vacant_directory
  have hgrows : fs.Grows (fs.add directory name contents)
      (fillAt directory name fs.entries.length) := grows_add hdirectory hname
  refine ⟨.inr ⟨?_, directory, name, hlocate⟩, ?_, content_add hdirectory, fun q other hother => ?_⟩
  · rw [content, List.getElem?_eq_none (Nat.le_refl _)]
  · simpa [fillAt] using hgrows.locate hlocate
  · simpa [fillAt] using hgrows.locate hother

end Add

/-- A file at the path can be opened for writing. -/
def Writable (fs : FileSystem) (p : Path) : Prop :=
  (∃ entry old, fs.locate p = .ok (.found entry) ∧ fs.entries[entry]? = some (.file old) ∧
    fs.denies entry .write = false) ∨
  ∃ directory name, fs.locate p = .ok (.vacant directory name) ∧
    fs.denies directory .write = false

section Write

variable {fs : FileSystem} {p : Path} {contents : Contents}

theorem Writable.write (h : fs.Writable p) (contents : Contents) :
    ∃ after entry, fs.write p contents = .ok after ∧ fs.Wrote after p contents entry := by
  rcases h with ⟨entry, old, hlocate, hentry, hdenies⟩ | ⟨directory, name, hlocate, hdenies⟩
  · refine ⟨_, entry, ?_, wrote_put hlocate hentry⟩
    simp [FileSystem.write, hlocate, hentry, hdenies]
  · refine ⟨_, _, ?_, wrote_add hlocate⟩
    simp [FileSystem.write, hlocate, hdenies]

end Write

end FileSystem

/-! ## How the command ends -/

section Run

variable {read : Reader} {channels : Channels} {fs : FileSystem} {words : List String}
  {a : Arguments} {contents : Contents} {compiled : Compiled}

end Run

/-- Nothing of what is to be stored has an encoding. -/
def Channels.unencodable : Channels where
  print _ := .whole
  store _ _ := .broken (.text "") .unencodable

end Hyperscript.CommandLine
