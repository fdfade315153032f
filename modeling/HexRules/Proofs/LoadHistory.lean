import HexRules.Repository

/-!
# The loads that a repository remembers

A repository keeps by its id each game that it has compiled, and by its source each id that a load
has given.  Read off the loads that have been made, the newest first, the one is the newest game that
was compiled under the id, and the other is the id of the newest load of the source.  A load that is
answered from the cache puts the two together, so it answers with the newest game under the id of the
newest load of that source; that is the game which that load gave as long as no other game has been
compiled under the id since.

    a.serve q is no load, or one from the cache, or one of a new entry    (served_serve)
    a.Recalls log → the archive after q recalls the log after q           (Recalls.served)
    a.Recalls log, a load is answered from the cache → it is the newest entry under the id of the
      newest load of its source                                          (Recalls.cached_eq)
-/

namespace HexRules

/-! ## Loads -/

/-- A repository and the files that it loads games from. -/
structure Archive where
  files : Directory File
  repository : Repository

/-- What is asked of a repository, and what happens to its files meanwhile. -/
inductive Request
  /-- From now on these are the files. -/
  | change (files : Directory File)
  | load (path : String) (force : Bool)
  | loadBundled (name : String)
  | loadJson (j : Json)

/-- A load that has given a game. -/
structure Loaded where
  /-- The source that the game was loaded from, if not from JSON. -/
  source : Option Source
  entry : Entry
  /-- Was the game compiled, not taken from the cache? -/
  compiled : Bool

/-- The id of the game that a load has given. -/
def Loaded.id (x : Loaded) : String := x.entry.definition.id

namespace Archive

def empty : Archive := ⟨emptyDirectory, Repository.empty⟩

/-- A load and the archive after it, by what the repository answers.  A game that was compiled has
used up a serial number. -/
def answered (a : Archive) (source : Option Source) :
    Except Error Entry × Repository → Option Loaded × Archive
  | (.error _, r) => (none, { a with repository := r })
  | (.ok entry, r) =>
    (some ⟨source, entry, decide (r.nextSerial ≠ a.repository.nextSerial)⟩,
      { a with repository := r })

/-- What a request loads, and the archive after it. -/
def serve (a : Archive) : Request → Option Loaded × Archive
  | .change files => (none, { a with files := files })
  | .load path force =>
    a.answered (some (.file (FilePath.ofText path))) (a.repository.loadFile a.files path force)
  | .loadBundled name =>
    a.answered (some (.bundled (FilePath.ofText (Games.fileName name))))
      (a.repository.loadBundled name)
  | .loadJson j => a.answered none (a.repository.loadJson j)

/-- The log of loads, newest first, and the archive after some requests, from a log on. -/
def serveAll (a : Archive) (log : List Loaded) : List Request → List Loaded × Archive
  | [] => (log, a)
  | q :: rest =>
    let served := a.serve q
    served.2.serveAll (served.1.toList ++ log) rest

/-! ## The ways in which a request ends -/

/-- `r'` keeps a newly compiled game as well, loaded from a source if there is one, and all else is
as in `r`. -/
structure Keeps (r : Repository) (source : Option Source) (d : Definition) (r' : Repository) :
    Prop where
  games : r'.games = r.games.insert d.id ⟨r.nextSerial, d⟩
  ids : ∀ s, r'.ids.get? s = if source = some s then some d.id else r.ids.get? s
  dated : ∀ s, source = some s → (r'.timestamps.get? s).isSome = true
  timestamps : ∀ s, source ≠ some s → r'.timestamps.get? s = r.timestamps.get? s
  nextSerial : r'.nextSerial = r.nextSerial + 1

theorem keeps_store (r : Repository) (d : Definition) : Keeps r none d (r.store d).2 where
  games := rfl
  ids _ := rfl
  dated s hs := by cases hs
  timestamps _ _ := rfl
  nextSerial := rfl

theorem keeps_storeFrom (r : Repository) (source : Source) (modified : Int) (d : Definition) :
    Keeps r (some source) d (r.storeFrom source modified d).2 where
  games := rfl
  ids s := by
    change (r.ids.insert source d.id).get? s = _
    simp only [Table.get?_insert, Option.some_inj, eq_comm]
  dated s hs := by
    cases hs
    change ((r.timestamps.insert source modified).get? source).isSome = true
    rw [Table.get?_insert, if_pos rfl]
    rfl
  timestamps s hs := by
    change (r.timestamps.insert source modified).get? s = _
    rw [Table.get?_insert, if_neg fun h => hs (congrArg some h.symm)]
  nextSerial := rfl

/-- The ways in which a request ends: what it loads, and the archive after it. -/
inductive Served (a : Archive) : Option Loaded → Archive → Prop
  /-- The files have changed, or a load has failed. -/
  | nothing (files : Directory File) : Served a none ⟨files, a.repository⟩
  | cached (s : Source) (entry : Entry) (h : a.repository.cached s = .ok entry) :
    Served a (some ⟨some s, entry, false⟩) a
  | compiled (source : Option Source) (d : Definition) (r : Repository)
      (h : Keeps a.repository source d r) :
    Served a (some ⟨source, ⟨a.repository.nextSerial, d⟩, true⟩) ⟨a.files, r⟩

theorem served_of_keeps {a : Archive} {source : Option Source} {d : Definition} {r : Repository}
    (h : Keeps a.repository source d r) :
    Served a (a.answered source (.ok ⟨a.repository.nextSerial, d⟩, r)).1
      (a.answered source (.ok ⟨a.repository.nextSerial, d⟩, r)).2 := by
  have hnew : r.nextSerial ≠ a.repository.nextSerial := by
    rw [h.nextSerial]
    omega
  rw [answered, decide_eq_true hnew]
  exact .compiled source d r h

theorem served_loadFrom (a : Archive) (s : Source) (modified : Int) (force : Bool)
    (compile : Except Error Definition) :
    Served a (a.answered (some s) (a.repository.loadFrom s modified force compile)).1
      (a.answered (some s) (a.repository.loadFrom s modified force compile)).2 := by
  unfold Repository.loadFrom
  split
  · cases hcached : a.repository.cached s with
    | error e => exact .nothing a.files
    | ok entry =>
      rw [answered, decide_eq_false (fun h => h rfl)]
      exact .cached s entry hcached
  · cases compile with
    | error e => exact .nothing a.files
    | ok d => exact served_of_keeps (keeps_storeFrom a.repository s modified d)

theorem served_serve (a : Archive) (q : Request) : Served a (a.serve q).1 (a.serve q).2 := by
  cases q with
  | change files => exact .nothing files
  | load path force =>
    rw [serve, Repository.loadFile]
    split
    · exact .nothing a.files
    · exact served_loadFrom a _ _ force _
  | loadBundled name =>
    rw [serve, Repository.loadBundled]
    split
    · exact .nothing a.files
    · exact served_loadFrom a _ _ false _
  | loadJson j =>
    rw [serve, Repository.loadJson]
    split
    · exact .nothing a.files
    · rename_i d _
      exact served_of_keeps (keeps_store a.repository d)

/-! ## What the log says -/

/-- The newest load from a source. -/
def newestFrom (s : Source) (log : List Loaded) : Option Loaded :=
  log.find? fun x => x.source = some s

/-- The newest game that was compiled under an id. -/
def newestUnder (id : String) (log : List Loaded) : Option Entry :=
  (log.find? fun x => x.compiled && x.id = id).map Loaded.entry

theorem newestFrom_cons (s : Source) (x : Loaded) (log : List Loaded) :
    newestFrom s (x :: log) = if x.source = some s then some x else newestFrom s log := by
  rw [newestFrom, List.find?_cons]
  by_cases h : x.source = some s <;> simp [h, newestFrom]

theorem newestUnder_cons_of_compiled {x : Loaded} (hx : x.compiled = true) (id : String)
    (log : List Loaded) :
    newestUnder id (x :: log) = if x.id = id then some x.entry else newestUnder id log := by
  rw [newestUnder, List.find?_cons, hx]
  by_cases h : x.id = id <;> simp [h, newestUnder]

theorem newestUnder_cons_of_not_compiled {x : Loaded} (hx : x.compiled = false) (id : String)
    (log : List Loaded) : newestUnder id (x :: log) = newestUnder id log := by
  rw [newestUnder, List.find?_cons, hx]
  rfl

theorem newestUnder_append (id : String) (recent older : List Loaded) :
    newestUnder id (recent ++ older) = (newestUnder id recent).or (newestUnder id older) := by
  rw [newestUnder, List.find?_append, Option.map_or]
  rfl

theorem newestUnder_eq_none_iff {id : String} {log : List Loaded} :
    newestUnder id log = none ↔ ∀ x ∈ log, x.compiled = true → x.id ≠ id := by
  simp [newestUnder, List.find?_eq_none]

theorem exists_of_newestUnder {id : String} {log : List Loaded} {entry : Entry}
    (h : newestUnder id log = some entry) :
    ∃ x ∈ log, x.compiled = true ∧ x.id = id ∧ x.entry = entry := by
  obtain ⟨x, hx, hentry⟩ := Option.map_eq_some_iff.1 h
  have hfound := List.find?_some hx
  rw [Bool.and_eq_true, decide_eq_true_iff] at hfound
  exact ⟨x, List.mem_of_find?_eq_some hx, hfound.1, hfound.2, hentry⟩

/-- The newest load from a source splits the log. -/
theorem exists_of_newestFrom {s : Source} {log : List Loaded} {last : Loaded}
    (h : newestFrom s log = some last) :
    ∃ recent older, log = recent ++ last :: older ∧ last.source = some s ∧
      ∀ x ∈ recent, x.source ≠ some s := by
  obtain ⟨hlast, recent, older, hlog, hrecent⟩ := List.find?_eq_some_iff_append.1 h
  refine ⟨recent, older, hlog, of_decide_eq_true hlast, fun x hx => ?_⟩
  simpa using hrecent x hx

/-! ## The repository recalls the log -/

/-- What the repository of an archive keeps is what the log of all loads says. -/
structure Recalls (a : Archive) (log : List Loaded) : Prop where
  games : ∀ id, a.repository.games.get? id = newestUnder id log
  ids : ∀ s, a.repository.ids.get? s = (newestFrom s log).map Loaded.id
  timestamps : ∀ s, (a.repository.timestamps.get? s).isSome = (newestFrom s log).isSome
  serials : ∀ x ∈ log, x.entry.serial < a.repository.nextSerial
  /-- A compiled game is newer than all games that were loaded before. -/
  ordered : log.Pairwise fun x y => x.compiled = true → y.entry.serial < x.entry.serial
  /-- Each load has given the newest game under its id. -/
  newest : ∀ x older, x :: older <:+ log → newestUnder x.id (x :: older) = some x.entry

theorem recalls_empty : Recalls empty [] where
  games _ := rfl
  ids _ := rfl
  timestamps _ := rfl
  serials := by simp
  ordered := .nil
  newest x older h := by simp at h

namespace Recalls

variable {a : Archive} {log : List Loaded}

theorem change (h : a.Recalls log) (files : Directory File) :
    Recalls ⟨files, a.repository⟩ log :=
  ⟨h.games, h.ids, h.timestamps, h.serials, h.ordered, h.newest⟩

/-- A source that is cached has been loaded, and what it answers is the newest game under the id that
the newest load of it gave. -/
theorem exists_of_cached {s : Source} {entry : Entry} (h : a.Recalls log)
    (hcached : a.repository.cached s = .ok entry) :
    ∃ last, newestFrom s log = some last ∧ newestUnder last.id log = some entry := by
  rw [Repository.cached, h.ids] at hcached
  cases hlast : newestFrom s log with
  | none =>
    rw [hlast] at hcached
    cases hcached
  | some last =>
    rw [hlast] at hcached
    change a.repository.get last.id = .ok entry at hcached
    rw [Repository.get, h.games] at hcached
    cases hnewest : newestUnder last.id log with
    | none =>
      rw [hnewest] at hcached
      cases hcached
    | some newest =>
      rw [hnewest] at hcached
      cases hcached
      exact ⟨last, rfl, hnewest⟩

/-- A load from the cache changes nothing, and its id is that of the load before from its source. -/
theorem cached {s : Source} {entry : Entry} (h : a.Recalls log)
    (hcached : a.repository.cached s = .ok entry) :
    a.Recalls (⟨some s, entry, false⟩ :: log) := by
  obtain ⟨last, hlast, hnewest⟩ := h.exists_of_cached hcached
  obtain ⟨x, hx, -, hid, rfl⟩ := exists_of_newestUnder hnewest
  have hsame : ∀ id, newestUnder id (⟨some s, x.entry, false⟩ :: log) = newestUnder id log :=
    fun id => newestUnder_cons_of_not_compiled rfl id log
  refine ⟨fun id => (h.games id).trans (hsame id).symm, fun s' => ?_, fun s' => ?_, ?_, ?_, ?_⟩
  · rw [newestFrom_cons, h.ids]
    split
    · rename_i hs
      cases hs
      rw [hlast]
      exact congrArg some hid.symm
    · rfl
  · rw [newestFrom_cons, h.timestamps]
    split
    · rename_i hs
      cases hs
      rw [hlast]
      rfl
    · rfl
  · intro y hy
    rcases List.mem_cons.1 hy with rfl | hy
    · exact h.serials x hx
    · exact h.serials y hy
  · exact List.pairwise_cons.2 ⟨fun _ _ hcompiled => absurd hcompiled Bool.false_ne_true, h.ordered⟩
  · intro y older hsuffix
    rcases List.suffix_cons_iff.1 hsuffix with heq | hsuffix
    · cases heq
      rw [hsame]
      exact hid ▸ hnewest
    · exact h.newest y older hsuffix

/-- A new entry has a serial number of its own and takes the place of the one under its id. -/
theorem compiled {source : Option Source} {d : Definition} {r : Repository} (h : a.Recalls log)
    (hkeeps : Keeps a.repository source d r) :
    Recalls ⟨a.files, r⟩ (⟨source, ⟨a.repository.nextSerial, d⟩, true⟩ :: log) := by
  have hnewest : ∀ id, newestUnder id (⟨source, ⟨a.repository.nextSerial, d⟩, true⟩ :: log) =
      if d.id = id then some ⟨a.repository.nextSerial, d⟩ else newestUnder id log :=
    fun id => newestUnder_cons_of_compiled rfl id log
  refine ⟨fun id => ?_, fun s => ?_, fun s => ?_, ?_, ?_, ?_⟩
  · rw [hkeeps.games, Table.get?_insert, hnewest, h.games]
    simp only [eq_comm]
  · rw [hkeeps.ids, newestFrom_cons, h.ids]
    split <;> rfl
  · rw [newestFrom_cons]
    split
    · rename_i hs
      exact hkeeps.dated s hs
    · rename_i hs
      exact (congrArg Option.isSome (hkeeps.timestamps s hs)).trans (h.timestamps s)
  · intro x hx
    change x.entry.serial < r.nextSerial
    rw [hkeeps.nextSerial]
    rcases List.mem_cons.1 hx with rfl | hx
    · exact Nat.lt_succ_self _
    · exact Nat.lt_succ_of_lt (h.serials x hx)
  · exact List.pairwise_cons.2 ⟨fun x hx _ => h.serials x hx, h.ordered⟩
  · intro x older hsuffix
    rcases List.suffix_cons_iff.1 hsuffix with heq | hsuffix
    · cases heq
      rw [hnewest]
      exact if_pos rfl
    · exact h.newest x older hsuffix

theorem served {loaded : Option Loaded} {a' : Archive} (h : a.Recalls log)
    (hserved : Served a loaded a') : a'.Recalls (loaded.toList ++ log) := by
  cases hserved with
  | nothing files => exact h.change files
  | cached s entry hcached => exact h.cached hcached
  | compiled source d r hkeeps => exact h.compiled hkeeps

theorem serveAll (h : a.Recalls log) (requests : List Request) :
    (a.serveAll log requests).2.Recalls (a.serveAll log requests).1 := by
  induction requests generalizing a log with
  | nil => exact h
  | cons q rest ih => exact ih (h.served (served_serve a q))

theorem after (h : a.Recalls log) {requests : List Request} {a' : Archive} {log' : List Loaded}
    (hserve : a.serveAll log requests = (log', a')) : a'.Recalls log' := by
  have hall := h.serveAll requests
  rwa [hserve] at hall

/-- What has been compiled under the id of a load since, or else what that load gave. -/
theorem newestUnder_eq (h : a.Recalls log) {recent older : List Loaded} {last : Loaded}
    (hlog : log = recent ++ last :: older) :
    newestUnder last.id log = (newestUnder last.id recent).or (some last.entry) := by
  have hsuffix : last :: older <:+ log := hlog ▸ List.suffix_append recent _
  conv => lhs; rw [hlog]
  rw [newestUnder_append, h.newest last older hsuffix]

/-- A later game under the id of a load is not the one that the load gave. -/
theorem newestUnder_eq_iff (h : a.Recalls log) {recent older : List Loaded} {last : Loaded}
    (hlog : log = recent ++ last :: older) :
    newestUnder last.id log = some last.entry ↔
      ∀ x ∈ recent, x.compiled = true → x.id ≠ last.id := by
  rw [h.newestUnder_eq hlog, ← newestUnder_eq_none_iff]
  constructor
  · intro hsame
    rcases Option.or_eq_some_iff.1 hsame with hrecent | ⟨hnone, -⟩
    · obtain ⟨x, hx, hcompiled, -, hentry⟩ := exists_of_newestUnder hrecent
      have hpairwise := h.ordered
      rw [hlog, List.pairwise_append] at hpairwise
      have hlt := hpairwise.2.2 x hx last List.mem_cons_self hcompiled
      rw [hentry] at hlt
      exact absurd hlt (Nat.lt_irrefl _)
    · exact hnone
  · intro hnone
    rw [hnone]
    rfl

/-- A source whose time is known has been loaded, and its cache answers. -/
theorem cached_eq {s : Source} {modified : Int} (h : a.Recalls log)
    (hcurrent : a.repository.isCurrent s modified = true) :
    ∃ last newest, newestFrom s log = some last ∧ newestUnder last.id log = some newest ∧
      a.repository.cached s = .ok newest := by
  have hknown : (newestFrom s log).isSome = true := by
    rw [← h.timestamps]
    unfold Repository.isCurrent at hcurrent
    split at hcurrent
    · rename_i hknown
      rw [hknown]
      rfl
    · cases hcurrent
  obtain ⟨last, hlast⟩ := Option.isSome_iff_exists.1 hknown
  obtain ⟨recent, older, hlog, -⟩ := exists_of_newestFrom hlast
  obtain ⟨newest, hnewest⟩ : ∃ newest, newestUnder last.id log = some newest := by
    rw [h.newestUnder_eq hlog]
    cases newestUnder last.id recent with
    | none => exact ⟨_, rfl⟩
    | some entry => exact ⟨entry, rfl⟩
  refine ⟨last, newest, hlast, hnewest, ?_⟩
  rw [Repository.cached, h.ids, hlast]
  change a.repository.get last.id = .ok newest
  rw [Repository.get, h.games, hnewest]

end Recalls

end Archive

theorem Repository.loadFile_of_isCurrent {r : Repository} {files : Directory File} {path : String}
    {file : File} (hread : files.read (FilePath.ofText path) = .ok file)
    (hcurrent : r.isCurrent (.file (FilePath.ofText path)) file.modified = true) :
    r.loadFile files path false = (r.cached (.file (FilePath.ofText path)), r) := by
  simp only [loadFile, hread, loadFrom, hcurrent, Bool.not_false, Bool.and_true, if_true]

open Archive

namespace Relay

/-! ## Two files that define one id -/

def twinText (radius : String) : String :=
  "\x7b\"id\": \"relay\", \"nodes\": [\"red\"], \"radius\": " ++ radius ++ "\x7d"

/-- Two games of one id, which differ in their radius. -/
def twins : Directory File :=
  ⟨[Directory.unnamed],
    Table.ofList [([Directory.unnamed, "a.json"], ⟨5000, twinText "2"⟩),
      ([Directory.unnamed, "b.json"], ⟨5000, twinText "1"⟩)]⟩

def pathA : Source := .file (FilePath.ofText "a.json")

def pathB : Source := .file (FilePath.ofText "b.json")

/-- The archive after the two files have been loaded in some order. -/
def loadTwins (first second : String) : List Loaded × Archive :=
  Archive.empty.serveAll [] [.change twins, .load first false, .load second false]

/-- What tells the entries of the two games apart. -/
def label (entry : Entry) : Nat × String × Nat :=
  (entry.serial, entry.definition.id, entry.definition.radius)

/-- What the log says of the loads, whether the first file is still current, and what its cache
answers. -/
def summary (served : List Loaded × Archive) :
    List (Option Source × Nat × String × Nat) × Option Bool × Option (Nat × String × Nat) :=
  (served.1.map fun x => (x.source, label x.entry),
    (served.2.files.read (FilePath.ofText "a.json")).toOption.map fun file =>
      served.2.repository.isCurrent pathA file.modified,
    (served.2.repository.cached pathA).toOption.map label)

theorem summary_first_second : summary (loadTwins "a.json" "b.json") =
    ([(some pathB, 1, "relay", 1), (some pathA, 0, "relay", 2)], some true,
      some (1, "relay", 1)) := by
  decide +kernel

theorem summary_second_first : summary (loadTwins "b.json" "a.json") =
    ([(some pathA, 1, "relay", 2), (some pathB, 0, "relay", 1)], some true,
      some (1, "relay", 2)) := by
  decide +kernel

theorem eq_ok_of_toOption {ε α : Type} {x : Except ε α} {v : α} (h : x.toOption = some v) :
    x = .ok v := by
  cases x with
  | error e => cases h
  | ok w => exact congrArg Except.ok (Option.some.inj h)

theorem exists_of_summary {log : List Loaded} {a : Archive}
    {labels : List (Option Source × Nat × String × Nat)} {answer : Nat × String × Nat}
    (h : summary (log, a) = (labels, some true, some answer)) :
    log.map (fun x => (x.source, label x.entry)) = labels ∧
      (∃ file, a.files.read (FilePath.ofText "a.json") = .ok file ∧
        a.repository.isCurrent pathA file.modified = true) ∧
      ∃ entry, a.repository.cached pathA = .ok entry ∧ label entry = answer := by
  obtain ⟨hlabels, hrest⟩ := Prod.mk.inj h
  obtain ⟨hcurrent, hcached⟩ := Prod.mk.inj hrest
  obtain ⟨file, hread, hcurrent⟩ := Option.map_eq_some_iff.1 hcurrent
  obtain ⟨entry, hentry, hanswer⟩ := Option.map_eq_some_iff.1 hcached
  exact ⟨hlabels, ⟨file, eq_ok_of_toOption hread, hcurrent⟩, entry,
    eq_ok_of_toOption hentry, hanswer⟩

end Relay

end HexRules
