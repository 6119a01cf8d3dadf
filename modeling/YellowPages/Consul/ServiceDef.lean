import YellowPages.Consul.ActiveChecks

/-!
# Service definitions in files

`internal/consul/servicedef.go`. The loader of an agent registers what the files of a directory
declare, once at the start and again on every SIGHUP. A file that does not decode and a registration
that fails are skipped.
-/

namespace YellowPages.Consul

open Lib Store SeedClient Healthcheck

/-! ## The directory -/

structure ServiceDefFile where
  service : Option RegisterInput := none
  services : List RegisterInput := []

/-- `content` is `none` for a file that cannot be read or decoded. -/
structure DirEntry where
  name : String
  isDir : Bool := false
  content : Option ServiceDefFile

/-- `filepath.Ext` of a name without slashes: the last dot and what is after it. -/
def ext (name : String) : String :=
  let after := (name.toList.reverse.takeWhile (· ≠ '.')).reverse
  if after.length = name.length then "" else String.ofList ('.' :: after)

def parseServiceDef (f : ServiceDefFile) : List RegisterInput := f.service.toList ++ f.services

/-- The definitions of a directory, in the order in which the loop comes to them. -/
def declared (entries : List DirEntry) : List RegisterInput :=
  entries.flatMap fun e =>
    if e.isDir ∨ ext e.name ≠ ".json" then [] else (e.content.map parseServiceDef).getD []

/-! ## The loader -/

/-- When a registration is made, and what becomes of it on the seeds. -/
structure Attempt (k : Nat) where
  now : Time
  fates : Fin k → Fate

namespace LocalAgent

variable {k : Nat}

/-- One turn of the inner loop, and whether the service is counted. -/
def loadOne (s : LocalAgent k) (input : RegisterInput) (a : Attempt k) : LocalAgent k × Bool :=
  if input.name = "" then (s, false)
  else
    -- no node: the proxy stamps its own
    match s.registerServices input a.now a.fates
      (single { id := "" } (s.handler.inputToService input) 1) with
    | (s, some _) => (s, false)
    | (s, none) => (s, true)

/-- The attempts are those from number `i` on. -/
def loadAll (attempts : Nat → Attempt k) : Nat → List RegisterInput → LocalAgent k →
    LocalAgent k × Nat
  | _, [], s => (s, 0)
  | i, input :: rest, s =>
    let one := s.loadOne input (attempts i)
    let more := loadAll attempts (i + 1) rest one.1
    (more.1, (if one.2 then 1 else 0) + more.2)

/-- `listing` is what `ReadDir` returns. -/
def loadServiceDefs (s : LocalAgent k) (dir : String) (listing : Except String (List DirEntry))
    (attempts : Nat → Attempt k) : LocalAgent k × Except String Nat :=
  if dir = "" then (s, .ok 0)
  else
    match listing with
    | .error err => (s, .error err)
    | .ok entries =>
      let (s, count) := s.loadAll attempts 0 (declared entries)
      (s, .ok count)

/-- The definitions that `loadAll` registers. -/
def accepted (attempts : Nat → Attempt k) : Nat → List RegisterInput → LocalAgent k →
    List RegisterInput
  | _, [], _ => []
  | i, input :: rest, s =>
    let one := s.loadOne input (attempts i)
    (if one.2 then [input] else []) ++ accepted attempts (i + 1) rest one.1

end LocalAgent

/-- One `reload`, at the start or after a SIGHUP. -/
structure Reload (k : Nat) where
  listing : Except String (List DirEntry)
  attempts : Nat → Attempt k

section Run

variable {k : Nat} (dir : String)

def Reload.exec (s : LocalAgent k) (r : Reload k) : LocalAgent k :=
  (s.loadServiceDefs dir r.listing r.attempts).1

def Reload.accepted (s : LocalAgent k) (r : Reload k) : List RegisterInput :=
  if dir = "" then []
  else
    match r.listing with
    | .error _ => []
    | .ok entries => s.accepted r.attempts 0 (declared entries)

/-- `Loader.Start`, with as many SIGHUPs as come. -/
def loader (reloads : List (Reload k)) (s : LocalAgent k) : LocalAgent k :=
  reloads.foldl (Reload.exec dir) s

/-- All that was registered, in order. -/
def loaderAccepted : List (Reload k) → LocalAgent k → List RegisterInput
  | [], _ => []
  | r :: rest, s => r.accepted dir s ++ loaderAccepted rest (r.exec dir s)

end Run

/-! ## What is hosted -/

variable {k : Nat}

/-- The definition that `RegisterServices` keeps. -/
def Handler.hostedAs (h : Handler) (input : RegisterInput) : ServiceInstance :=
  { h.inputToService input with generation := 1 }

/-- The last of the definitions with the id. -/
def Handler.lastOf (h : Handler) (id : String) (inputs : List RegisterInput) : Option RegisterInput :=
  (inputs.filter fun input => (h.inputToService input).id = id).getLast?

/-- From `s` to `s'` the definitions `acc` were registered. -/
structure Loaded (s : LocalAgent k) (acc : List RegisterInput) (s' : LocalAgent k) : Prop where
  handler : s'.handler = s.handler
  hosted : ∀ id,
    s'.proxy.hosted[id]? = ((s.handler.lastOf id acc).map s.handler.hostedAs).or s.proxy.hosted[id]?
  active : ∀ id, s'.monitor.active id =
    ((s.handler.lastOf id acc).map fun input => decide (s.handler.activeChecks input ≠ [])).getD
      (s.monitor.active id)

theorem lastOf_append (h : Handler) (id : String) (acc acc' : List RegisterInput) :
    h.lastOf id (acc ++ acc') = (h.lastOf id acc').or (h.lastOf id acc) := by
  simp only [Handler.lastOf, List.filter_append, List.getLast?_append]

namespace Loaded

variable {s t u : LocalAgent k} {acc acc' : List RegisterInput}

theorem refl (s : LocalAgent k) : Loaded s [] s where
  handler := rfl
  hosted id := by simp [Handler.lastOf]
  active id := by simp [Handler.lastOf]

theorem trans (h : Loaded s acc t) (h' : Loaded t acc' u) : Loaded s (acc ++ acc') u where
  handler := h'.handler.trans h.handler
  hosted id := by
    rw [h'.hosted id, h.hosted id, h.handler, lastOf_append]
    cases s.handler.lastOf id acc' <;> simp
  active id := by
    rw [h'.active id, h.active id, h.handler, lastOf_append]
    cases s.handler.lastOf id acc' <;> simp

/-- A registration that fails changes the seeds at most. -/
theorem of_failed (hhandler : t.handler = s.handler) (hhosted : t.proxy.hosted = s.proxy.hosted)
    (hmonitor : t.monitor = s.monitor) : Loaded s [] t where
  handler := hhandler
  hosted id := by simp [Handler.lastOf, hhosted]
  active id := by simp [Handler.lastOf, hmonitor]

theorem named_inputToService (h : Handler) (input : RegisterInput) :
    named (h.inputToService input) = h.inputToService input := by
  simp [named, serviceId_inputToService]

theorem registerServices (s : LocalAgent k) (input : RegisterInput) (now : Time)
    (fates : Fin k → Fate) (node : Node) :
    let r := s.registerServices input now fates (single node (s.handler.inputToService input) 1)
    Loaded s (if r.2.isNone then [input] else []) r.1 := by
  intro r
  have hcases :=
    registerServices_cases s.proxy s.seeds (single node (s.handler.inputToService input) 1) fates
  rcases hcases with ⟨err, -, hr⟩ | ⟨sent, hsent, ⟨-, hr⟩ | ⟨-, err, hr⟩⟩
  · simp only [r, LocalAgent.registerServices, hr]
    exact of_failed rfl rfl rfl
  · obtain rfl := sends_of_prepare hsent
    simp only [r, LocalAgent.registerServices, hr]
    refine ⟨rfl, fun id => ?_, fun id => ?_⟩
    · simp only [host_last, Proxy.sends, single, List.map_singleton, named_inputToService,
        Handler.lastOf]
      by_cases hid : (s.handler.inputToService input).id = id <;> simp [hid, Handler.hostedAs]
    · rw [Bool.eq_iff_iff, active_set]
      by_cases hid : (s.handler.inputToService input).id = id <;> simp [Handler.lastOf, hid]
  · simp only [r, LocalAgent.registerServices, hr]
    exact of_failed rfl rfl rfl

theorem loadOne (s : LocalAgent k) (input : RegisterInput) (a : Attempt k) :
    Loaded s (if (s.loadOne input a).2 then [input] else []) (s.loadOne input a).1 := by
  have hone := registerServices s input a.now a.fates { id := "" }
  unfold LocalAgent.loadOne
  split
  · exact refl s
  · cases hr :
      s.registerServices input a.now a.fates
        (single { id := "" } (s.handler.inputToService input) 1) with
    | mk t err =>
      simp only [hr] at hone
      cases err <;> exact hone

theorem loadAll (attempts : Nat → Attempt k) (i : Nat) (inputs : List RegisterInput)
    (s : LocalAgent k) :
    Loaded s (s.accepted attempts i inputs) (s.loadAll attempts i inputs).1 := by
  induction inputs generalizing i s with
  | nil => exact refl s
  | cons input rest ih => exact (loadOne s input (attempts i)).trans (ih (i + 1) _)

theorem reload (dir : String) (r : Reload k) (s : LocalAgent k) :
    Loaded s (r.accepted dir s) (r.exec dir s) := by
  unfold Reload.exec Reload.accepted LocalAgent.loadServiceDefs
  split
  · exact refl s
  · cases r.listing with
    | error err => exact refl s
    | ok entries => exact loadAll r.attempts 0 (declared entries) s

theorem loader (dir : String) (reloads : List (Reload k)) (s : LocalAgent k) :
    Loaded s (loaderAccepted dir reloads s) (loader dir reloads s) := by
  induction reloads generalizing s with
  | nil => exact refl s
  | cons r rest ih => exact (reload dir r s).trans (ih _)

end Loaded

/-! ## Reloads -/

theorem accepted_sublist (attempts : Nat → Attempt k) (i : Nat) (inputs : List RegisterInput)
    (s : LocalAgent k) :
    (s.accepted attempts i inputs).Sublist (inputs.filter (·.name ≠ "")) := by
  induction inputs generalizing i s with
  | nil => exact List.Sublist.refl []
  | cons input rest ih =>
    have hrest := ih (i + 1) (s.loadOne input (attempts i)).1
    unfold LocalAgent.accepted
    by_cases hname : input.name = ""
    · simpa [LocalAgent.loadOne, hname] using hrest
    · rw [List.filter_cons_of_pos (by simpa using hname)]
      dsimp only
      split
      · exact hrest.cons_cons input
      · exact hrest.cons input

theorem loadAll_count (attempts : Nat → Attempt k) (i : Nat) (inputs : List RegisterInput)
    (s : LocalAgent k) :
    (s.loadAll attempts i inputs).2 = (s.accepted attempts i inputs).length := by
  induction inputs generalizing i s with
  | nil => rfl
  | cons input rest ih =>
    simp only [LocalAgent.loadAll, LocalAgent.accepted, ih, List.length_append]
    split <;> rfl

/-- What is registered is declared, and counted. -/
theorem loadServiceDefs_count {dir : String} (hdir : dir ≠ "") (entries : List DirEntry)
    (attempts : Nat → Attempt k) (s : LocalAgent k) :
    (Reload.accepted dir s ⟨.ok entries, attempts⟩).Sublist
      ((declared entries).filter (·.name ≠ "")) ∧
      (s.loadServiceDefs dir (.ok entries) attempts).2 = .ok
        (Reload.accepted dir s ⟨.ok entries, attempts⟩).length := by
  simp only [Reload.accepted, LocalAgent.loadServiceDefs, if_neg hdir, loadAll_count, and_true]
  exact accepted_sublist attempts 0 (declared entries) s

theorem Follows.loadAll {s : LocalAgent k} (h : Follows s) (attempts : Nat → Attempt k) (i : Nat)
    (inputs : List RegisterInput) : Follows (s.loadAll attempts i inputs).1 := by
  induction inputs generalizing i s with
  | nil => exact h
  | cons input rest ih =>
    refine ih ?_ (i + 1)
    have hone := h.registerServices input (attempts i).now (attempts i).fates { id := "" }
    unfold LocalAgent.loadOne
    split
    · exact h
    · cases hr : s.registerServices input (attempts i).now (attempts i).fates
          (single { id := "" } (s.handler.inputToService input) 1) with
      | mk t err =>
        rw [hr] at hone
        cases err <;> exact hone

theorem Follows.loader {s : LocalAgent k} (h : Follows s) (dir : String) (reloads : List (Reload k)) :
    Follows (loader dir reloads s) := by
  induction reloads generalizing s with
  | nil => exact h
  | cons r rest ih =>
    refine ih ?_
    unfold Reload.exec LocalAgent.loadServiceDefs
    split
    · exact h
    · cases r.listing with
      | error err => exact h
      | ok entries => exact h.loadAll r.attempts 0 (declared entries)

def webFile : DirEntry :=
  { name := "web.json",
    content := some
      { service := some { name := "web", check := some { http := "http://127.0.0.1" } } } }

def acked : Nat → Attempt 1 := fun _ => ⟨0, fun _ => .processed (fun _ => 0) true⟩

end YellowPages.Consul
