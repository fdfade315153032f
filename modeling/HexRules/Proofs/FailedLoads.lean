import HexRules.Proofs.LoadHistory

/-!
# Loads that fail

A load that fails leaves the repository as it was, so all that was loaded before stays there, and
what is asked of the repository later is answered as if the load had not been made.  That does not
make the next load of the path read the file again: it does if it is forced, or if the file has
changed since it was last loaded with success, and a forced load can fail on a file that has not.
What is asked in between matters as far as it compiles the file anew.

    a.Recalls log → a load of a source is cached, or fails, or is kept  (Recalls.loadFrom_cases)
    a.Recalls log, a request fails by e → LoadFailure e and the repository is as before
                                                                        (Recalls.of_error)
    a.Recalls log → a.serveAll log (a.withoutFailed requests) = a.serveAll log requests
                                                              (Recalls.serveAll_withoutFailed)
    a.Recalls log, a.Current path → a.load path false succeeds          (Recalls.exists_of_current)
    a.Recalls log → (a.load path force = a.load path true ↔ force = true ∨ ¬ a.Current path)
                                                                        (Recalls.tries_iff)
    a.serveAll log requests = (recent ++ log, a'), nothing in recent is compiled from a source
      → the source has the same time in a and a'                        (exists_recent_of_serveAll)
-/

namespace HexRules

/-! ## Failures -/

/-- What a load can fail by: the file is not read, or it holds no JSON, or no game that compiles. -/
inductive LoadFailure : Error → Prop
  | file (cause : FileError) (path : String) : LoadFailure (.file cause path)
  | badJson : LoadFailure .badJson
  | integerTooLong : LoadFailure .integerTooLong
  | compile (cause : CompileError) : LoadFailure (.compile cause)

theorem loadFailure_of_parse {text : String} {e : Error} (h : Repository.parse text = .error e) :
    LoadFailure e := by
  unfold Repository.parse at h
  split at h
  · cases h
    exact .badJson
  · cases h
    exact .integerTooLong
  · split at h
    · cases h
      exact .compile _
    · cases h

namespace Archive

/-- Load the file at a path: what the repository answers, and the repository after it. -/
def load (a : Archive) (path : String) (force : Bool) : Except Error Entry × Repository :=
  a.repository.loadFile a.files path force

/-- What the repository answers to a request, and the repository after it.  A change of the files is
no request to it. -/
def response (a : Archive) : Request → Option (Except Error Entry × Repository)
  | .change _ => none
  | .load path force => some (a.load path force)
  | .loadBundled name => some (a.repository.loadBundled name)
  | .loadJson j => some (a.repository.loadJson j)

theorem serve_of_error {a : Archive} {q : Request} {e : Error} {r : Repository}
    (h : a.response q = some (.error e, r)) : a.serve q = (none, ⟨a.files, r⟩) := by
  cases q with
  | change files => cases h
  | load path force =>
    show a.answered _ (a.load path force) = _
    rw [Option.some.inj h]
    rfl
  | loadBundled name =>
    show a.answered _ (a.repository.loadBundled name) = _
    rw [Option.some.inj h]
    rfl
  | loadJson j =>
    show a.answered _ (a.repository.loadJson j) = _
    rw [Option.some.inj h]
    rfl

/-- The repository answers the request with an error. -/
def fails (a : Archive) (q : Request) : Bool :=
  match a.response q with
  | some (.error _, _) => true
  | _ => false

theorem exists_of_fails {a : Archive} {q : Request} (h : a.fails q = true) :
    ∃ e r, a.response q = some (.error e, r) := by
  unfold fails at h
  split at h
  · rename_i e r hresponse
    exact ⟨e, r, hresponse⟩
  · cases h

/-- The requests of a history that do not fail when they are served in order. -/
def withoutFailed (a : Archive) : List Request → List Request
  | [] => []
  | q :: rest =>
    if a.fails q then a.withoutFailed rest else q :: (a.serve q).2.withoutFailed rest

/-- There is a file at the path, and it has not changed since the path was last loaded. -/
def Current (a : Archive) (path : String) : Prop :=
  ∃ file known, a.files.read (FilePath.ofText path) = .ok file ∧
    a.repository.timestamps.get? (.file (FilePath.ofText path)) = some known ∧
    file.modified ≤ known

theorem isCurrent_iff (r : Repository) (s : Source) (modified : Int) :
    r.isCurrent s modified = true ↔ ∃ known, r.timestamps.get? s = some known ∧ modified ≤ known := by
  unfold Repository.isCurrent
  cases r.timestamps.get? s with
  | none => simp
  | some known => simp

theorem current_iff {a : Archive} {path : String} {file : File}
    (hread : a.files.read (FilePath.ofText path) = .ok file) :
    a.Current path ↔
      a.repository.isCurrent (.file (FilePath.ofText path)) file.modified = true := by
  rw [isCurrent_iff]
  constructor
  · rintro ⟨file', known, hread', hknown, hle⟩
    cases hread.symm.trans hread'
    exact ⟨known, hknown, hle⟩
  · rintro ⟨known, hknown, hle⟩
    exact ⟨file, known, hread, hknown, hle⟩

instance (a : Archive) (path : String) : Decidable (a.Current path) :=
  match hread : a.files.read (FilePath.ofText path) with
  | .ok _ => decidable_of_iff _ (current_iff hread).symm
  | .error cause => isFalse fun ⟨_, _, hfile, _⟩ => by
      rw [hread] at hfile
      cases hfile

theorem load_of_read {a : Archive} {path : String} {file : File}
    (hread : a.files.read (FilePath.ofText path) = .ok file) (force : Bool) :
    a.load path force = a.repository.loadFrom (.file (FilePath.ofText path)) file.modified force
      (Repository.parse file.text) := by
  simp only [load, Repository.loadFile, hread]

namespace Recalls

variable {a : Archive} {log : List Loaded}

/-- The ways in which a load ends.  The cache never fails to answer. -/
theorem loadFrom_cases (h : a.Recalls log) (s : Source) (modified : Int) (force : Bool)
    (compile : Except Error Definition) :
    (force = false ∧ a.repository.isCurrent s modified = true ∧ ∃ entry,
      a.repository.loadFrom s modified force compile = (.ok entry, a.repository)) ∨
    ((force = true ∨ a.repository.isCurrent s modified = false) ∧
      ((∃ e, compile = .error e ∧
        a.repository.loadFrom s modified force compile = (.error e, a.repository)) ∨
      ∃ d, compile = .ok d ∧ a.repository.loadFrom s modified force compile =
        (.ok ⟨a.repository.nextSerial, d⟩, (a.repository.storeFrom s modified d).2))) := by
  by_cases hcached : force = false ∧ a.repository.isCurrent s modified = true
  · obtain ⟨rfl, hcurrent⟩ := hcached
    obtain ⟨last, newest, -, -, hanswer⟩ := h.cached_eq hcurrent
    refine .inl ⟨rfl, hcurrent, newest, ?_⟩
    simp only [Repository.loadFrom, hcurrent, Bool.not_false, Bool.and_self, if_true, hanswer]
  · have htried : force = true ∨ a.repository.isCurrent s modified = false := by
      cases force with
      | true => exact .inl rfl
      | false => exact .inr (Bool.eq_false_iff.2 fun hcurrent => hcached ⟨rfl, hcurrent⟩)
    have hskip : (!force && a.repository.isCurrent s modified) = false := by
      rcases htried with hforce | hcurrent
      · rw [hforce]
        rfl
      · rw [hcurrent, Bool.and_false]
    refine .inr ⟨htried, ?_⟩
    simp only [Repository.loadFrom, hskip, Bool.false_eq_true, if_false]
    cases compile with
    | error e => exact .inl ⟨e, rfl, rfl⟩
    | ok d => exact .inr ⟨d, rfl, rfl⟩

theorem loadFrom_error (h : a.Recalls log) {s : Source} {modified : Int} {force : Bool}
    {compile : Except Error Definition} {e : Error} {r : Repository}
    (hfailed : a.repository.loadFrom s modified force compile = (.error e, r)) :
    (force = true ∨ a.repository.isCurrent s modified = false) ∧ compile = .error e ∧
      r = a.repository := by
  rcases h.loadFrom_cases s modified force compile with
    ⟨-, -, entry, hok⟩ | ⟨htried, ⟨e', hcompile, herror⟩ | ⟨d, -, hok⟩⟩
  · rw [hok] at hfailed
    cases hfailed
  · rw [herror] at hfailed
    cases hfailed
    exact ⟨htried, hcompile, rfl⟩
  · rw [hok] at hfailed
    cases hfailed

/-- A failed load has failed by what it loads, never for want of an entry that it looks up, and has
changed nothing. -/
theorem of_error (h : a.Recalls log) {q : Request} {e : Error} {r : Repository}
    (hfailed : a.response q = some (.error e, r)) : LoadFailure e ∧ r = a.repository := by
  cases q with
  | change files => cases hfailed
  | load path force =>
    replace hfailed : a.load path force = (.error e, r) := Option.some.inj hfailed
    cases hread : a.files.read (FilePath.ofText path) with
    | error cause =>
      simp only [load, Repository.loadFile, hread] at hfailed
      cases hfailed
      exact ⟨.file cause path, rfl⟩
    | ok file =>
      rw [load_of_read hread] at hfailed
      obtain ⟨-, hparse, hr⟩ := h.loadFrom_error hfailed
      exact ⟨loadFailure_of_parse hparse, hr⟩
  | loadBundled name =>
    replace hfailed : a.repository.loadBundled name = (.error e, r) := Option.some.inj hfailed
    simp only [Repository.loadBundled] at hfailed
    split at hfailed
    · rename_i cause _
      cases hfailed
      exact ⟨.file cause name, rfl⟩
    · obtain ⟨-, hcompile, hr⟩ := h.loadFrom_error hfailed
      split at hcompile
      · cases hcompile
        exact ⟨.compile _, hr⟩
      · cases hcompile
  | loadJson j =>
    replace hfailed : a.repository.loadJson j = (.error e, r) := Option.some.inj hfailed
    unfold Repository.loadJson at hfailed
    split at hfailed
    · rename_i cause _
      cases hfailed
      exact ⟨.compile cause, rfl⟩
    · cases hfailed

/-- What comes after a failed request goes on as without it. -/
theorem serveAll_cons_of_error (h : a.Recalls log) {q : Request} {e : Error} {r : Repository}
    (hfailed : a.response q = some (.error e, r)) (rest : List Request) :
    a.serveAll log (q :: rest) = a.serveAll log rest := by
  obtain ⟨-, rfl⟩ := h.of_error hfailed
  rw [Archive.serveAll, serve_of_error hfailed]
  rfl

/-- A history and the same one without its failed requests come to the same archive, with the same
loads. -/
theorem serveAll_withoutFailed (h : a.Recalls log) (requests : List Request) :
    a.serveAll log (a.withoutFailed requests) = a.serveAll log requests := by
  induction requests generalizing a log with
  | nil => rfl
  | cons q rest ih =>
    rw [withoutFailed]
    split
    · rename_i hfails
      obtain ⟨e, r, hfailed⟩ := exists_of_fails hfails
      rw [ih h, h.serveAll_cons_of_error hfailed]
    · rw [Archive.serveAll, Archive.serveAll]
      exact ih (h.served (served_serve a q))

/-- A load from the cache succeeds. -/
theorem exists_of_current (h : a.Recalls log) {path : String} (hcurrent : a.Current path) :
    ∃ entry, a.load path false = (.ok entry, a.repository) := by
  obtain ⟨file, known, hread, hknown, hle⟩ := hcurrent
  have hsame := (isCurrent_iff _ _ _).2 ⟨known, hknown, hle⟩
  obtain ⟨-, newest, -, -, hanswer⟩ := h.cached_eq hsame
  exact ⟨newest, by rw [load, Repository.loadFile_of_isCurrent hread hsame, hanswer]⟩

/-- A load reads the file and compiles what it says, as a forced one does, exactly if it is forced or
the file is not current. -/
theorem tries_iff (h : a.Recalls log) (path : String) (force : Bool) :
    a.load path force = a.load path true ↔ force = true ∨ ¬ a.Current path := by
  constructor
  · intro hsame
    cases force with
    | true => exact .inl rfl
    | false =>
      refine .inr fun hcurrent => ?_
      obtain ⟨entry, hcached⟩ := h.exists_of_current hcurrent
      obtain ⟨file, -, hread, -, -⟩ := hcurrent
      rw [hcached, load_of_read hread] at hsame
      -- A forced load gives no entry that is there already.
      rcases h.loadFrom_cases (.file (FilePath.ofText path)) file.modified true
          (Repository.parse file.text) with ⟨hforced, -⟩ | ⟨-, ⟨e, -, herror⟩ | ⟨d, -, hok⟩⟩
      · cases hforced
      · rw [herror] at hsame
        cases hsame
      · rw [hok] at hsame
        have hserial := congrArg Repository.nextSerial (Prod.mk.inj hsame).2
        have hkept := (keeps_storeFrom a.repository (.file (FilePath.ofText path)) file.modified
          d).nextSerial
        omega
  · intro htried
    cases force with
    | true => rfl
    | false =>
      have hcurrent : ¬ a.Current path := htried.resolve_left Bool.false_ne_true
      cases hread : a.files.read (FilePath.ofText path) with
      | error cause => simp only [load, Repository.loadFile, hread]
      | ok file =>
        have hold : a.repository.isCurrent (.file (FilePath.ofText path)) file.modified = false :=
          Bool.eq_false_iff.2 fun hsame => hcurrent ((current_iff hread).2 hsame)
        simp only [load_of_read hread, Repository.loadFrom, hold, Bool.and_false]

/-- An unforced load does not fail on a current file. -/
theorem not_current_of_error (h : a.Recalls log) {path : String} {e : Error} {r : Repository}
    (hfailed : a.load path false = (.error e, r)) : ¬ a.Current path := by
  intro hcurrent
  obtain ⟨entry, hok⟩ := h.exists_of_current hcurrent
  rw [hok] at hfailed
  cases hfailed

end Recalls

/-! ## Later requests -/

/-- Only a load that compiles a source anew changes the time of the source. -/
theorem timestamp_of_served {a a' : Archive} {loaded : Option Loaded} (h : Served a loaded a')
    {s : Source} (hs : ∀ x ∈ loaded, x.compiled = true → x.source ≠ some s) :
    a'.repository.timestamps.get? s = a.repository.timestamps.get? s := by
  cases h with
  | nothing files => rfl
  | cached s' entry hcached => rfl
  | compiled source d r hkeeps => exact hkeeps.timestamps s (hs _ rfl rfl)

/-- What some requests have loaded, and the sources whose time they have left alone. -/
theorem exists_recent_of_serveAll {a a' : Archive} {log log' : List Loaded}
    {requests : List Request} (hserve : a.serveAll log requests = (log', a')) :
    ∃ recent, log' = recent ++ log ∧
      ∀ s, (∀ x ∈ recent, x.compiled = true → x.source ≠ some s) →
        a'.repository.timestamps.get? s = a.repository.timestamps.get? s := by
  induction requests generalizing a log with
  | nil =>
    cases hserve
    exact ⟨[], rfl, fun _ _ => rfl⟩
  | cons q rest ih =>
    obtain ⟨recent, hlog, hkept⟩ := ih hserve
    refine ⟨recent ++ (a.serve q).1.toList, by rw [hlog, List.append_assoc], fun s hs => ?_⟩
    have hfirst := timestamp_of_served (served_serve a q) fun x hx =>
      hs x (List.mem_append_right _ (Option.mem_toList.2 hx))
    rw [hkept s fun x hx => hs x (List.mem_append_left _ hx), hfirst]

/-- A file that was not current is not current when it has become newer. -/
theorem not_current_of_newer {a a' : Archive} {path : String} (hold : ¬ a.Current path)
    (htime : a'.repository.timestamps.get? (.file (FilePath.ofText path)) =
      a.repository.timestamps.get? (.file (FilePath.ofText path)))
    (hnewer : ∀ newer, a'.files.read (FilePath.ofText path) = .ok newer →
      ∃ file, a.files.read (FilePath.ofText path) = .ok file ∧ file.modified ≤ newer.modified) :
    ¬ a'.Current path := by
  rintro ⟨newer, known, hnew, hknown, hle⟩
  obtain ⟨file, hread, hfile⟩ := hnewer newer hnew
  exact hold ⟨file, known, hread, htime ▸ hknown, by omega⟩

end Archive

open Archive

namespace Relay

/-! ## A file that is broken after it has been loaded -/

/-- The two files, with nothing left in the first one, which was changed last at `modified`. -/
def brokenTwins (modified : Int) : Directory File :=
  ⟨[Directory.unnamed],
    Table.ofList [([Directory.unnamed, "a.json"], ⟨modified, ""⟩),
      ([Directory.unnamed, "b.json"], ⟨5000, twinText "1"⟩)]⟩

/-- Both files are loaded, the first one last, and then it is broken. -/
def breaking (modified : Int) : List Request :=
  [.change twins, .load "b.json" false, .load "a.json" false, .change (brokenTwins modified)]

def isBadJson : Except Error Entry → Bool
  | .error .badJson => true
  | _ => false

theorem exists_of_isBadJson {x : Except Error Entry × Repository} (h : isBadJson x.1 = true) :
    ∃ r, x = (.error .badJson, r) := by
  obtain ⟨answer, r⟩ := x
  unfold isBadJson at h
  split at h
  · rename_i heq
    exact ⟨r, Prod.ext heq rfl⟩
  · cases h

end Relay

end HexRules
