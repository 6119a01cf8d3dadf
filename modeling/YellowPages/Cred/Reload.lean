import YellowPages.Model
import YellowPages.Lib.Threads
import YellowPages.Lib.Trace

/-!
# Certificates that are rotated on disk

`internal/cred/reload.go`. Every TLS handshake asks for the current pair. The call looks at the
modification times of the two files, and reads the files again if a time is not the recorded one.
Any number of calls run at once, and the files change under them.
-/

namespace YellowPages.Cred

open Lib

structure File (β : Type) where
  content : β
  modTime : Time
  deriving DecidableEq

/-- What a call does next. In `current`: the two stats of `changed` and the comparison under the read
lock. In `reload`: the two reads of `LoadX509KeyPair`, two more stats, and the swap under the lock. -/
inductive Phase (β γ : Type) where
  | statCert
  | statKey (cert : Option Time)
  | compare (cert key : Option Time)
  | readCert
  | readKey (cert : β)
  | restatCert (pair : γ)
  | restatKey (pair : γ) (cert : Option Time)
  | swap (pair : γ) (cert key : Option Time)
  | serve
  deriving DecidableEq

/-- The files, the reloader and the calls that are under way. -/
structure Reloader (β γ : Type) where
  /-- `none` if the file is missing. -/
  cert : Option (File β)
  key : Option (File β)
  cached : Option γ := none
  /-- `none` is the zero time, which no file has. -/
  modCert : Option Time := none
  modKey : Option Time := none
  calls : Threads (Phase β γ) := ∅
  /-- What each call returned. -/
  served : List (Nat × γ) := []
  /-- When each file was written last. -/
  certWritten : Time := 0
  keyWritten : Time := 0

inductive ReloadAction (β : Type) where
  | setCert (f : Option (File β))
  | setKey (f : Option (File β))
  | handshake (id : Nat)
  | step (id : Nat)
  deriving DecidableEq

def ReloadAction.changesFile {β : Type} : ReloadAction β → Bool
  | .setCert _ | .setKey _ => true
  | _ => false

def ReloadAction.certFile {β : Type} : ReloadAction β → Option (File β)
  | .setCert f => f
  | _ => none

def ReloadAction.keyFile {β : Type} : ReloadAction β → Option (File β)
  | .setKey f => f
  | _ => none

/-- A step of the call `id`. -/
def ReloadAction.of {β : Type} (id : Nat) : ReloadAction β → Bool
  | .step other => other = id
  | _ => false

namespace Reloader

variable {β γ : Type} (loadX509KeyPair : β → β → Option γ) (s : Reloader β γ)

/-- Call 0 is `newCertReloader`. It loads the pair, and there are no handshakes before it has one. -/
def newCertReloader (cert key : Option (File β)) : Reloader β γ :=
  { cert := cert, key := key, calls := (∅ : Threads (Phase β γ)).insert 0 .readCert
    certWritten := (cert.map File.modTime).getD 0, keyWritten := (key.map File.modTime).getD 0 }

/-- Whether a time that was looked up differs from the recorded ones. A missing file does not. -/
def changed (cert key : Option Time) : Bool :=
  match cert, key with
  | some cert, some key => some cert ≠ s.modCert || some key ≠ s.modKey
  | _, _ => false

/-- The next phase of a call. A failed load goes on with the cached pair. -/
def next : Phase β γ → Phase β γ
  | .statCert => .statKey (s.cert.map File.modTime)
  | .statKey cert => .compare cert (s.key.map File.modTime)
  | .compare cert key => if s.changed cert key then .readCert else .serve
  | .readCert =>
    match s.cert with
    | none => .serve
    | some f => .readKey f.content
  | .readKey cert =>
    match s.key.bind fun f => loadX509KeyPair cert f.content with
    | none => .serve
    | some pair => .restatCert pair
  | .restatCert pair => .restatKey pair (s.cert.map File.modTime)
  | .restatKey pair cert => .swap pair cert (s.key.map File.modTime)
  | .swap _ _ _ => .serve
  | .serve => .serve

/-- What a phase does to the reloader itself. -/
def effect (id : Nat) : Phase β γ → Reloader β γ
  | .swap pair cert key =>
    { s with cached := some pair, modCert := cert.or s.modCert, modKey := key.or s.modKey }
  | .serve =>
    match s.cached with
    | none => s
    | some pair => { s with served := s.served ++ [(id, pair)] }
  | _ => s

def step : ReloadAction β → Reloader β γ
  | .setCert f => { s with cert := f, certWritten := (f.map File.modTime).getD s.certWritten }
  | .setKey f => { s with key := f, keyWritten := (f.map File.modTime).getD s.keyWritten }
  | .handshake id =>
    if s.cached.isNone ∨ id ∈ s.calls then s else { s with calls := s.calls.insert id .statCert }
  | .step id =>
    match s.calls[id]? with
    | none => s
    | some .serve => { s.effect id .serve with calls := s.calls.erase id }
    | some p => { s.effect id p with calls := s.calls.insert id (s.next loadX509KeyPair p) }

def run (actions : List (ReloadAction β)) : Reloader β γ := actions.foldl (step loadX509KeyPair) s

/-! ## One step -/

theorem step_call {id : Nat} {p : Phase β γ} (hp : s.calls[id]? = some p) (hserve : p ≠ .serve) :
    s.step loadX509KeyPair (.step id) =
      { s.effect id p with calls := s.calls.insert id (s.next loadX509KeyPair p) } := by
  unfold step
  simp only [hp]

theorem step_serve {id : Nat} {pair : γ} (hp : s.calls[id]? = some .serve)
    (hcached : s.cached = some pair) :
    s.step loadX509KeyPair (.step id) =
      { s with calls := s.calls.erase id, served := s.served ++ [(id, pair)] } := by
  unfold step
  simp only [hp, effect, hcached]

theorem step_idle {id : Nat} (hp : s.calls[id]? = none) : s.step loadX509KeyPair (.step id) = s := by
  unfold step
  simp only [hp]

/-! ## Only pairs that load -/

section Loads

variable (certs keys : List β)

/-- A pair made of a certificate and a key that were in the files. -/
def Loads (pair : γ) : Prop := ∃ c ∈ certs, ∃ k ∈ keys, loadX509KeyPair c k = some pair

def Carries : Phase β γ → Prop
  | .readKey cert => cert ∈ certs
  | .restatCert pair | .restatKey pair _ | .swap pair _ _ => Loads loadX509KeyPair certs keys pair
  | _ => True

structure Traced : Prop where
  cert : ∀ f, s.cert = some f → f.content ∈ certs
  key : ∀ f, s.key = some f → f.content ∈ keys
  cached : ∀ pair, s.cached = some pair → Loads loadX509KeyPair certs keys pair
  calls : Each (Carries loadX509KeyPair certs keys) s.calls
  served : ∀ e ∈ s.served, Loads loadX509KeyPair certs keys e.2

variable {loadX509KeyPair s certs keys}

theorem Traced.next (h : s.Traced loadX509KeyPair certs keys) {p : Phase β γ}
    (hp : Carries loadX509KeyPair certs keys p) :
    Carries loadX509KeyPair certs keys (s.next loadX509KeyPair p) := by
  cases p with
  | compare cert key =>
    unfold Reloader.next
    dsimp only
    split <;> trivial
  | readCert =>
    unfold Reloader.next
    cases hcert : s.cert with
    | none => trivial
    | some f => exact h.cert f hcert
  | readKey cert =>
    unfold Reloader.next
    cases hkey : s.key with
    | none => trivial
    | some f =>
      cases hload : loadX509KeyPair cert f.content with
      | none => simp [hload, Carries]
      | some pair =>
        simp only [Option.bind_some, hload]
        exact ⟨cert, hp, f.content, h.key f hkey, hload⟩
  | restatCert pair => exact hp
  | restatKey pair cert => exact hp
  | _ => trivial

theorem Traced.effect (h : s.Traced loadX509KeyPair certs keys) (id : Nat) {p : Phase β γ}
    (hp : Carries loadX509KeyPair certs keys p) :
    (s.effect id p).Traced loadX509KeyPair certs keys := by
  cases p with
  | swap pair cert key =>
    refine ⟨h.cert, h.key, fun pair' hpair => ?_, h.calls, h.served⟩
    obtain rfl := Option.some.inj hpair
    exact hp
  | serve =>
    cases hcached : s.cached with
    | none => simpa [Reloader.effect, hcached] using h
    | some pair =>
      simp only [Reloader.effect, hcached]
      refine ⟨h.cert, h.key, by simpa [hcached] using h.cached, h.calls, fun e he => ?_⟩
      rcases List.mem_append.mp he with he | he
      · exact h.served e he
      · rw [List.mem_singleton.mp he]
        exact h.cached pair hcached
  | _ => exact h

theorem Traced.step (h : s.Traced loadX509KeyPair certs keys) (a : ReloadAction β)
    (hcert : ∀ f, a.certFile = some f → f.content ∈ certs)
    (hkey : ∀ f, a.keyFile = some f → f.content ∈ keys) :
    (s.step loadX509KeyPair a).Traced loadX509KeyPair certs keys := by
  cases a with
  | setCert f => exact ⟨hcert, h.key, h.cached, h.calls, h.served⟩
  | setKey f => exact ⟨h.cert, hkey, h.cached, h.calls, h.served⟩
  | handshake id =>
    unfold Reloader.step
    dsimp only
    split
    · exact h
    · exact ⟨h.cert, h.key, h.cached, h.calls.insert id trivial fun _ _ _ _ hu => hu, h.served⟩
  | step id =>
    unfold Reloader.step
    dsimp only
    split
    · exact h
    · rename_i hp
      have heffect := h.effect id (h.calls id _ hp)
      exact ⟨heffect.cert, heffect.key, heffect.cached, h.calls.erase id, heffect.served⟩
    · rename_i p _ hp
      have hcarries := h.calls id p hp
      have heffect := h.effect id hcarries
      exact ⟨heffect.cert, heffect.key, heffect.cached,
        h.calls.insert id (h.next hcarries) fun _ _ _ _ hu => hu, heffect.served⟩

theorem Traced.run (h : s.Traced loadX509KeyPair certs keys) (actions : List (ReloadAction β))
    (hcerts : ∀ f ∈ actions.filterMap ReloadAction.certFile, f.content ∈ certs)
    (hkeys : ∀ f ∈ actions.filterMap ReloadAction.keyFile, f.content ∈ keys) :
    (s.run loadX509KeyPair actions).Traced loadX509KeyPair certs keys := by
  induction actions generalizing s with
  | nil => exact h
  | cons a rest ih =>
    refine ih (h.step a (fun f hf => hcerts f ?_) (fun f hf => hkeys f ?_))
      (fun f hf => hcerts f ?_) (fun f hf => hkeys f ?_)
    · exact List.mem_filterMap.mpr ⟨a, List.mem_cons_self, hf⟩
    · exact List.mem_filterMap.mpr ⟨a, List.mem_cons_self, hf⟩
    · exact (List.filterMap_subset _ (List.subset_cons_self a rest)) hf
    · exact (List.filterMap_subset _ (List.subset_cons_self a rest)) hf

/-- Whatever happens to the files, and in whatever order the calls run, a handshake gets a pair that
loads, of a certificate and a key that were in the files. -/
theorem served_pair_loads (loadX509KeyPair : β → β → Option γ) (cert key : Option (File β))
    (actions : List (ReloadAction β)) :
    ∀ e ∈ ((newCertReloader cert key).run loadX509KeyPair actions).served,
      Loads loadX509KeyPair ((cert.toList ++ actions.filterMap ReloadAction.certFile).map File.content)
        ((key.toList ++ actions.filterMap ReloadAction.keyFile).map File.content) e.2 := by
  have hnew : (newCertReloader cert key).Traced loadX509KeyPair
      ((cert.toList ++ actions.filterMap ReloadAction.certFile).map File.content)
      ((key.toList ++ actions.filterMap ReloadAction.keyFile).map File.content) := by
    refine ⟨fun f hf => ?_, fun f hf => ?_, fun pair hpair => ?_, ?_, fun e he => ?_⟩
    · have hcert : cert = some f := hf
      simp [hcert]
    · have hkey : key = some f := hf
      simp [hkey]
    · simp [newCertReloader] at hpair
    · exact (Each.empty _).insert 0 trivial fun _ _ _ _ hu => hu
    · simp [newCertReloader] at he
  refine (hnew.run actions (fun f hf => ?_) (fun f hf => ?_)).served
  · exact List.mem_map_of_mem (List.mem_append_right _ hf)
  · exact List.mem_map_of_mem (List.mem_append_right _ hf)

end Loads

/-- A pair whose halves carry the same number. -/
def matching (cert key : Nat) : Option Nat := if cert = key then some cert else none

/-- The certificate is replaced and the key is not yet. A handshake in between gets the old pair. -/
theorem served_pair_loads_between :
    let s := (newCertReloader (some ⟨1, 5⟩) (some ⟨1, 5⟩)).run matching
      (List.replicate 6 (.step 0) ++ .setCert (some ⟨2, 10⟩) :: .handshake 1 ::
        List.replicate 9 (.step 1))
    (1, 1) ∈ s.served ∧ Loads matching [1, 2] [1] 1 := by
  intro s
  have hserved : (1, 1) ∈ s.served := by decide +kernel
  exact ⟨hserved, served_pair_loads matching _ _ _ (1, 1) hserved⟩

/-! ## What a call knows -/

/-- The file has the content `c`. -/
def Holds (file : Option (File β)) (c : β) : Prop := ∃ f, file = some f ∧ f.content = c

/-- The content of time `t` was `c`, and no later content has that time. -/
def Dated (written : Time) (file : Option (File β)) (t : Option Time) (c : β) : Prop :=
  ∃ u, t = some u ∧ u ≤ written ∧ ∀ f, file = some f → f.modTime = u → f.content = c

theorem Dated.of_holds {written : Time} {file : Option (File β)} {c : β} (h : Holds file c)
    (hwritten : ∀ f, file = some f → f.modTime ≤ written) :
    Dated written file (file.map File.modTime) c := by
  obtain ⟨f, rfl, rfl⟩ := h
  refine ⟨f.modTime, rfl, hwritten f rfl, fun g hg _ => ?_⟩
  rw [Option.some.inj hg]

/-- A file that is written later has a later time. -/
theorem Dated.changed {written later : Time} {file : Option (File β)} {t : Option Time} {c : β}
    (h : Dated written file t c) (file' : Option (File β)) (hlater : written ≤ later)
    (hnew : ∀ f, file' = some f → written < f.modTime) : Dated later file' t c := by
  obtain ⟨u, rfl, hu, -⟩ := h
  refine ⟨u, rfl, le_trans hu hlater, fun f hf htime => ?_⟩
  exact absurd htime (ne_of_gt (lt_of_le_of_lt hu (hnew f hf)))

/-- What a call has read is still there until it has looked at the time. -/
def Knows : Phase β γ → Prop
  | .readKey cert => Holds s.cert cert
  | .restatCert pair => ∃ c k, Holds s.cert c ∧ Holds s.key k ∧ loadX509KeyPair c k = some pair
  | .restatKey pair cert =>
    ∃ c k, Dated s.certWritten s.cert cert c ∧ Holds s.key k ∧ loadX509KeyPair c k = some pair
  | .swap pair cert key =>
    ∃ c k, Dated s.certWritten s.cert cert c ∧ Dated s.keyWritten s.key key k ∧
      loadX509KeyPair c k = some pair
  | _ => True

/-- The cached pair is that of the recorded times. -/
structure Sound : Prop where
  cert : ∀ f, s.cert = some f → f.modTime ≤ s.certWritten
  key : ∀ f, s.key = some f → f.modTime ≤ s.keyWritten
  cached : ∀ pair, s.cached = some pair →
    ∃ c k, Dated s.certWritten s.cert s.modCert c ∧ Dated s.keyWritten s.key s.modKey k ∧
      loadX509KeyPair c k = some pair
  calls : Each (s.Knows loadX509KeyPair) s.calls

/-- The call has read the file and has not yet looked at its time. -/
def holdsCert : Phase β γ → Bool
  | .readKey _ | .restatCert _ => true
  | _ => false

def holdsKey : Phase β γ → Bool
  | .restatCert _ | .restatKey _ _ => true
  | _ => false

/-- A file changes at a later time than it had before, and not between a read of it and the stat
after it. -/
def Orderly : ReloadAction β → Prop
  | .setCert f =>
    (∀ g, f = some g → s.certWritten < g.modTime) ∧ Each (fun p => holdsCert p = false) s.calls
  | .setKey f =>
    (∀ g, f = some g → s.keyWritten < g.modTime) ∧ Each (fun p => holdsKey p = false) s.calls
  | _ => True

variable {loadX509KeyPair s}

theorem Knows.next (h : s.Sound loadX509KeyPair) {p : Phase β γ} (hp : s.Knows loadX509KeyPair p) :
    s.Knows loadX509KeyPair (s.next loadX509KeyPair p) := by
  cases p with
  | statCert => trivial
  | statKey cert => trivial
  | compare cert key =>
    unfold Reloader.next
    dsimp only
    split <;> trivial
  | readCert =>
    unfold Reloader.next
    cases hcert : s.cert with
    | none => trivial
    | some f => exact ⟨f, hcert, rfl⟩
  | readKey cert =>
    unfold Reloader.next
    cases hkey : s.key with
    | none => trivial
    | some f =>
      cases hload : loadX509KeyPair cert f.content with
      | none => simp [hload, Knows]
      | some pair =>
        simp only [Option.bind_some, hload]
        exact ⟨cert, f.content, hp, ⟨f, hkey, rfl⟩, hload⟩
  | restatCert pair =>
    obtain ⟨c, k, hc, hk, hload⟩ := hp
    exact ⟨c, k, Dated.of_holds hc h.cert, hk, hload⟩
  | restatKey pair cert =>
    obtain ⟨c, k, hc, hk, hload⟩ := hp
    exact ⟨c, k, hc, Dated.of_holds hk h.key, hload⟩
  | swap pair cert key => trivial
  | serve => trivial

theorem written_le_change (written : Time) (f : Option (File β))
    (hnew : ∀ g, f = some g → written < g.modTime) :
    written ≤ (f.map File.modTime).getD written := by
  cases f with
  | none => exact le_refl _
  | some g => exact le_of_lt (hnew g rfl)

theorem le_written_change (written : Time) (f : Option (File β)) :
    ∀ g, f = some g → g.modTime ≤ (f.map File.modTime).getD written := by
  rintro g rfl
  exact le_refl _

/-- A call that holds no content of the changed file knows what it knew. -/
theorem Knows.setCert {p : Phase β γ} (hp : s.Knows loadX509KeyPair p) (hfree : holdsCert p = false)
    (f : Option (File β)) (hnew : ∀ g, f = some g → s.certWritten < g.modTime) :
    (s.step loadX509KeyPair (.setCert f)).Knows loadX509KeyPair p := by
  have hlater := written_le_change s.certWritten f hnew
  cases p with
  | readKey cert => simp [holdsCert] at hfree
  | restatCert pair => simp [holdsCert] at hfree
  | restatKey pair cert =>
    obtain ⟨c, k, hc, hk, hload⟩ := hp
    exact ⟨c, k, hc.changed f hlater hnew, hk, hload⟩
  | swap pair cert key =>
    obtain ⟨c, k, hc, hk, hload⟩ := hp
    exact ⟨c, k, hc.changed f hlater hnew, hk, hload⟩
  | _ => trivial

theorem Knows.setKey {p : Phase β γ} (hp : s.Knows loadX509KeyPair p) (hfree : holdsKey p = false)
    (f : Option (File β)) (hnew : ∀ g, f = some g → s.keyWritten < g.modTime) :
    (s.step loadX509KeyPair (.setKey f)).Knows loadX509KeyPair p := by
  have hlater := written_le_change s.keyWritten f hnew
  cases p with
  | readKey cert => exact hp
  | restatCert pair => simp [holdsKey] at hfree
  | restatKey pair cert => simp [holdsKey] at hfree
  | swap pair cert key =>
    obtain ⟨c, k, hc, hk, hload⟩ := hp
    exact ⟨c, k, hc, hk.changed f hlater hnew, hload⟩
  | _ => trivial

namespace Sound

theorem setCert (h : s.Sound loadX509KeyPair) (f : Option (File β))
    (hnew : ∀ g, f = some g → s.certWritten < g.modTime)
    (hfree : Each (fun p => holdsCert p = false) s.calls) :
    (s.step loadX509KeyPair (.setCert f)).Sound loadX509KeyPair := by
  have hlater := written_le_change s.certWritten f hnew
  refine ⟨le_written_change s.certWritten f, h.key, fun pair hpair => ?_, ?_⟩
  · obtain ⟨c, k, hc, hk, hload⟩ := h.cached pair hpair
    exact ⟨c, k, hc.changed f hlater hnew, hk, hload⟩
  · intro id p hp
    exact Knows.setCert (h.calls id p hp) (hfree id p hp) f hnew

theorem setKey (h : s.Sound loadX509KeyPair) (f : Option (File β))
    (hnew : ∀ g, f = some g → s.keyWritten < g.modTime)
    (hfree : Each (fun p => holdsKey p = false) s.calls) :
    (s.step loadX509KeyPair (.setKey f)).Sound loadX509KeyPair := by
  have hlater := written_le_change s.keyWritten f hnew
  refine ⟨h.cert, le_written_change s.keyWritten f, fun pair hpair => ?_, ?_⟩
  · obtain ⟨c, k, hc, hk, hload⟩ := h.cached pair hpair
    exact ⟨c, k, hc, hk.changed f hlater hnew, hload⟩
  · intro id p hp
    exact Knows.setKey (h.calls id p hp) (hfree id p hp) f hnew

theorem call (h : s.Sound loadX509KeyPair) (id : Nat) :
    (s.step loadX509KeyPair (.step id)).Sound loadX509KeyPair := by
  cases hp : s.calls[id]? with
  | none =>
    rw [step_idle _ _ hp]
    exact h
  | some p =>
    have hnext := Knows.next h (h.calls id p hp)
    have hcalls := h.calls.insert id hnext fun _ _ _ _ hu => hu
    cases p with
    | serve =>
      cases hcached : s.cached with
      | none =>
        unfold step
        simp only [hp, effect, hcached]
        exact ⟨h.cert, h.key, by simp, h.calls.erase id⟩
      | some pair =>
        rw [step_serve _ _ hp hcached]
        exact ⟨h.cert, h.key, by simpa [hcached] using h.cached, h.calls.erase id⟩
    | swap pair cert key =>
      rw [step_call _ _ hp (by simp)]
      refine ⟨h.cert, h.key, fun pair' hpair => ?_, hcalls⟩
      obtain rfl := Option.some.inj hpair
      obtain ⟨c, k, hc, hk, hload⟩ := h.calls id _ hp
      -- both files were there for the stats, so both times are recorded
      obtain ⟨u, rfl, hu⟩ := hc
      obtain ⟨v, rfl, hv⟩ := hk
      exact ⟨c, k, ⟨u, rfl, hu⟩, ⟨v, rfl, hv⟩, hload⟩
    | _ =>
      rw [step_call _ _ hp (by simp)]
      exact ⟨h.cert, h.key, h.cached, hcalls⟩

theorem step (h : s.Sound loadX509KeyPair) {a : ReloadAction β} (ha : s.Orderly a) :
    (s.step loadX509KeyPair a).Sound loadX509KeyPair := by
  cases a with
  | setCert f => exact h.setCert f ha.1 ha.2
  | setKey f => exact h.setKey f ha.1 ha.2
  | handshake id =>
    unfold Reloader.step
    dsimp only
    split
    · exact h
    · exact ⟨h.cert, h.key, h.cached, h.calls.insert id trivial fun _ _ _ _ hu => hu⟩
  | step id => exact h.call id

theorem new (cert key : Option (File β)) : (newCertReloader cert key).Sound loadX509KeyPair where
  cert f hf := by
    have hcert : cert = some f := hf
    simp [newCertReloader, hcert]
  key f hf := by
    have hkey : key = some f := hf
    simp [newCertReloader, hkey]
  cached pair hpair := by simp [newCertReloader] at hpair
  calls := (Each.empty _).insert 0 trivial fun _ _ _ _ hu => hu

end Sound

/-! ## After the last change -/

section Still

variable (f g : File β) (pair : γ)

/-- What a call has seen since the files are `f` and `g`, which make up `pair`. -/
def Current (s : Reloader β γ) : Phase β γ → Prop
  | .statKey cert => cert = some f.modTime
  | .compare cert key => cert = some f.modTime ∧ key = some g.modTime
  | .readKey cert => cert = f.content
  | .restatCert p => p = pair
  | .restatKey p cert => p = pair ∧ cert = some f.modTime
  | .swap p cert key => p = pair ∧ cert = some f.modTime ∧ key = some g.modTime
  | .serve => s.cached = some pair
  | _ => True

/-- `old` is what was served before. -/
structure Follows (old : List (Nat × γ)) (s : Reloader β γ) : Prop where
  cert : s.cert = some f
  key : s.key = some g
  up : s.cached ≠ none
  cached : s.modCert = some f.modTime → s.modKey = some g.modTime → s.cached = some pair
  calls : Each (s.Current f g pair) s.calls
  served : ∃ new, s.served = old ++ new ∧ ∀ e ∈ new, e.2 = pair

variable {f g pair}

theorem changed_eq_false_iff (cert key : Time) :
    s.changed (some cert) (some key) = false ↔ s.modCert = some cert ∧ s.modKey = some key := by
  simp only [changed, Bool.or_eq_false_iff, decide_eq_false_iff_not, not_not]
  exact and_congr eq_comm eq_comm

namespace Follows

variable {old : List (Nat × γ)}

theorem start (h : s.Sound loadX509KeyPair) (hcalls : s.calls = ∅) (hup : s.cached ≠ none)
    (hcert : s.cert = some f) (hkey : s.key = some g)
    (hload : loadX509KeyPair f.content g.content = some pair) :
    s.Follows f g pair s.served where
  cert := hcert
  key := hkey
  up := hup
  cached hf hg := by
    obtain ⟨p, hp⟩ := Option.ne_none_iff_exists'.mp hup
    obtain ⟨c, k, ⟨u, hu, -, hc⟩, ⟨v, hv, -, hk⟩, hpair⟩ := h.cached p hp
    have hu' : f.modTime = u := Option.some.inj (hf.symm.trans hu)
    have hv' : g.modTime = v := Option.some.inj (hg.symm.trans hv)
    rw [← hc f hcert hu', ← hk g hkey hv', hload] at hpair
    rw [hp, hpair]
  calls := by
    rw [hcalls]
    exact Each.empty _
  served := ⟨[], by simp, by simp⟩

theorem next (h : s.Follows f g pair old) (hload : loadX509KeyPair f.content g.content = some pair)
    (id : Nat) {p : Phase β γ} (hp : s.Current f g pair p) (hserve : p ≠ .serve) :
    (s.effect id p).Current f g pair (s.next loadX509KeyPair p) := by
  cases p with
  | statCert => simp [Reloader.next, Current, h.cert]
  | statKey cert => exact ⟨hp, by rw [h.key]; rfl⟩
  | compare cert key =>
    obtain ⟨rfl, rfl⟩ := hp
    unfold Reloader.next
    dsimp only
    split <;> rename_i hchanged
    · trivial
    · obtain ⟨hf, hg⟩ := (changed_eq_false_iff _ _).mp (Bool.eq_false_iff.mpr hchanged)
      exact h.cached hf hg
  | readCert => simp [Reloader.next, Current, h.cert]
  | readKey cert =>
    obtain rfl : cert = f.content := hp
    simp [Reloader.next, Current, h.key, hload]
  | restatCert p => exact ⟨hp, by rw [h.cert]; rfl⟩
  | restatKey p cert => exact ⟨hp.1, hp.2, by rw [h.key]; rfl⟩
  | swap p cert key => exact congrArg some hp.1
  | serve => exact absurd rfl hserve

/-- All swaps put the same pair, so those who are about to return it are not disturbed. -/
theorem others {id : Nat} {p u : Phase β γ} (hp : s.Current f g pair p) (hu : s.Current f g pair u) :
    (s.effect id p).Current f g pair u := by
  cases u with
  | serve =>
    unfold effect
    split
    · exact congrArg some hp.1
    · split <;> exact hu
    · exact hu
  | _ => exact hu

theorem call (h : s.Follows f g pair old) (hload : loadX509KeyPair f.content g.content = some pair)
    (id : Nat) :
    (s.step loadX509KeyPair (.step id)).Follows f g pair old := by
  cases hp : s.calls[id]? with
  | none =>
    rw [step_idle _ _ hp]
    exact h
  | some p =>
    have hcurrent := h.calls id p hp
    by_cases hserve : p = .serve
    · subst hserve
      rw [step_serve _ _ hp hcurrent]
      obtain ⟨new, hnew, hall⟩ := h.served
      refine ⟨h.cert, h.key, h.up, h.cached, h.calls.erase id, new ++ [(id, pair)], ?_, ?_⟩
      · simp [hnew]
      · intro e he
        rcases List.mem_append.mp he with he | he
        · exact hall e he
        · rw [List.mem_singleton.mp he]
    · have hcalls := h.calls.insert id (h.next hload id hcurrent hserve) fun _ _ _ _ hu =>
        others hcurrent hu
      rw [step_call _ _ hp hserve]
      cases p with
      | swap p cert key =>
        obtain ⟨rfl, rfl, rfl⟩ := hcurrent
        exact ⟨h.cert, h.key, by simp [effect], fun _ _ => rfl, hcalls, h.served⟩
      | serve => exact absurd rfl hserve
      | _ => exact ⟨h.cert, h.key, h.up, h.cached, hcalls, h.served⟩

variable (loadX509KeyPair) in
theorem handshake (h : s.Follows f g pair old) (id : Nat) :
    (s.step loadX509KeyPair (.handshake id)).Follows f g pair old := by
  unfold Reloader.step
  dsimp only
  split
  · exact h
  · exact ⟨h.cert, h.key, h.up, h.cached, h.calls.insert id trivial fun _ _ _ _ hu => hu, h.served⟩

theorem run (h : s.Follows f g pair old) (hload : loadX509KeyPair f.content g.content = some pair)
    {actions : List (ReloadAction β)} (hstill : ∀ a ∈ actions, a.changesFile = false) :
    (s.run loadX509KeyPair actions).Follows f g pair old := by
  induction actions generalizing s with
  | nil => exact h
  | cons a rest ih =>
    have hrest : ∀ b ∈ rest, b.changesFile = false :=
      fun b hb => hstill b (List.mem_cons_of_mem a hb)
    cases a with
    | setCert f => simpa [ReloadAction.changesFile] using hstill _ List.mem_cons_self
    | setKey f => simpa [ReloadAction.changesFile] using hstill _ List.mem_cons_self
    | handshake id => exact ih (h.handshake loadX509KeyPair id) hrest
    | step id => exact ih (h.call hload id) hrest

end Follows

end Still

/-! ## Calls return -/

/-- How many steps a call still takes. -/
def rank : Phase β γ → Nat
  | .statCert => 9
  | .statKey _ => 8
  | .compare _ _ => 7
  | .readCert => 6
  | .readKey _ => 5
  | .restatCert _ => 4
  | .restatKey _ _ => 3
  | .swap _ _ _ => 2
  | .serve => 1

theorem rank_le (p : Phase β γ) : rank p ≤ 9 := by
  cases p <;> simp [rank]

variable (loadX509KeyPair s) in
theorem rank_next_lt {p : Phase β γ} (hserve : p ≠ .serve) :
    rank (s.next loadX509KeyPair p) < rank p := by
  unfold next
  cases p with
  | serve => exact absurd rfl hserve
  | compare cert key =>
    dsimp only
    split <;> simp [rank]
  | readCert => cases s.cert <;> simp [rank]
  | readKey cert =>
    dsimp only
    split <;> simp [rank]
  | _ => simp [rank]

theorem up_effect (hup : s.cached ≠ none) (id : Nat) (p : Phase β γ) :
    (s.effect id p).cached ≠ none := by
  unfold effect
  split
  · simp
  · split <;> exact hup
  · exact hup

theorem served_effect (id : Nat) (p : Phase β γ) : s.served <+: (s.effect id p).served := by
  unfold effect
  split
  · exact List.prefix_rfl
  · split <;> simp
  · exact List.prefix_rfl

variable (loadX509KeyPair) in
/-- Nothing takes the pair away, and nothing that was served is forgotten. -/
theorem up_step (hup : s.cached ≠ none) (a : ReloadAction β) :
    (s.step loadX509KeyPair a).cached ≠ none ∧ s.served <+: (s.step loadX509KeyPair a).served := by
  cases a with
  | setCert f => exact ⟨hup, List.prefix_rfl⟩
  | setKey f => exact ⟨hup, List.prefix_rfl⟩
  | handshake id =>
    unfold step
    dsimp only
    split <;> exact ⟨hup, List.prefix_rfl⟩
  | step id =>
    unfold step
    dsimp only
    split
    · exact ⟨hup, List.prefix_rfl⟩
    · exact ⟨up_effect hup id _, served_effect id _⟩
    · exact ⟨up_effect hup id _, served_effect id _⟩

variable (loadX509KeyPair) in
theorem served_run (hup : s.cached ≠ none) (actions : List (ReloadAction β)) :
    s.served <+: (s.run loadX509KeyPair actions).served := by
  induction actions generalizing s with
  | nil => exact List.prefix_rfl
  | cons a rest ih =>
    obtain ⟨hup', hserved⟩ := up_step loadX509KeyPair hup a
    exact hserved.trans (ih hup')

theorem calls_step {id : Nat} {p : Phase β γ} (hp : s.calls[id]? = some p) {a : ReloadAction β}
    (ha : a.of id = false) : (s.step loadX509KeyPair a).calls[id]? = some p := by
  cases a with
  | setCert f => exact hp
  | setKey f => exact hp
  | handshake other =>
    unfold step
    dsimp only
    split <;> rename_i hbusy
    · exact hp
    · have hne : other ≠ id := by
        rintro rfl
        exact hbusy (Or.inr (Std.ExtTreeMap.mem_iff_isSome_getElem?.mpr (by simp [hp])))
      simpa [Std.ExtTreeMap.getElem?_insert, hne] using hp
  | step other =>
    have hne : other ≠ id := by simpa [ReloadAction.of] using ha
    unfold step
    dsimp only
    split
    · exact hp
    · simpa [Std.ExtTreeMap.getElem?_erase, hne] using hp
    · simpa [Std.ExtTreeMap.getElem?_insert, hne] using hp

variable (loadX509KeyPair) in
theorem begun (hup : s.cached ≠ none) (id : Nat) :
    ∃ p, (s.step loadX509KeyPair (.handshake id)).calls[id]? = some p := by
  unfold step
  dsimp only
  split <;> rename_i hbusy
  · have hmem := hbusy.resolve_left (by simpa using hup)
    exact Option.isSome_iff_exists.mp (Std.ExtTreeMap.mem_iff_isSome_getElem?.mp hmem)
  · exact ⟨.statCert, by simp⟩

variable (loadX509KeyPair) in
/-- A call returns after its steps, whatever the others do in between. -/
theorem returns {id : Nat} {p : Phase β γ} (hp : s.calls[id]? = some p) (hup : s.cached ≠ none)
    {actions : List (ReloadAction β)} (hsteps : rank p ≤ actions.countP (ReloadAction.of id)) :
    ∃ more, (s.run loadX509KeyPair actions).served = s.served ++ more ∧ ∃ e ∈ more, e.1 = id := by
  induction actions generalizing s p with
  | nil => cases p <;> simp [rank] at hsteps
  | cons a rest ih =>
    obtain ⟨hup', more, hserved⟩ := up_step loadX509KeyPair hup a
    -- what the first action and the rest serve, put together
    have hjoin : (∃ later, ((s.step loadX509KeyPair a).run loadX509KeyPair rest).served =
        (s.step loadX509KeyPair a).served ++ later ∧ ∃ e ∈ later, e.1 = id) →
        ∃ more, (s.run loadX509KeyPair (a :: rest)).served = s.served ++ more ∧
          ∃ e ∈ more, e.1 = id := by
      rintro ⟨later, hlater, e, he, hid⟩
      refine ⟨more ++ later, ?_, e, List.mem_append_right more he, hid⟩
      rw [← List.append_assoc, hserved, ← hlater]
      rfl
    by_cases ha : a.of id = true
    · rw [List.countP_cons_of_pos ha] at hsteps
      cases a with
      | step other =>
        obtain rfl : other = id := by simpa [ReloadAction.of] using ha
        by_cases hserve : p = .serve
        · subst hserve
          obtain ⟨pair, hpair⟩ := Option.ne_none_iff_exists'.mp hup
          have hmore : s.served ++ more = s.served ++ [(other, pair)] := by
            rw [hserved, step_serve loadX509KeyPair s hp hpair]
          obtain ⟨later, hlater⟩ := served_run loadX509KeyPair hup' rest
          refine ⟨more ++ later, ?_, (other, pair), ?_, rfl⟩
          · rw [← List.append_assoc, hserved, hlater]
            rfl
          · simp [List.append_cancel_left hmore]
        · have hnext : (s.step loadX509KeyPair (.step other)).calls[other]? =
            some (s.next loadX509KeyPair p) := by
            rw [step_call loadX509KeyPair s hp hserve]
            simp
          have hrank := rank_next_lt loadX509KeyPair s hserve
          exact hjoin (ih hnext hup' (by omega))
      | _ => simp [ReloadAction.of] at ha
    · rw [List.countP_cons_of_neg ha] at hsteps
      exact hjoin (ih (calls_step hp (Bool.eq_false_iff.mpr ha)) hup' hsteps)

/-! ## Rotation -/

/-- While the files change only as `Orderly` says, and once the calls of that time have returned, every
handshake gets the pair that is on disk, and gets it after nine steps of its own. -/
theorem rotation_is_served (loadX509KeyPair : β → β → Option γ) (cert key : Option (File β))
    (before after : List (ReloadAction β)) (s : Reloader β γ)
    (hrun : s = (newCertReloader cert key).run loadX509KeyPair before)
    (horderly : Throughout (step loadX509KeyPair) Orderly (newCertReloader cert key) before)
    (hcalls : s.calls = ∅) (hup : s.cached ≠ none) (f g : File β) (pair : γ)
    (hcert : s.cert = some f) (hkey : s.key = some g)
    (hload : loadX509KeyPair f.content g.content = some pair)
    (hstill : ∀ a ∈ after, a.changesFile = false) :
    ∃ new, (s.run loadX509KeyPair after).served = s.served ++ new ∧ (∀ e ∈ new, e.2 = pair) ∧
      ∀ id first rest, after = first ++ .handshake id :: rest →
        9 ≤ rest.countP (ReloadAction.of id) → ∃ e ∈ new, e.1 = id := by
  have hsound : s.Sound loadX509KeyPair := by
    rw [hrun]
    exact horderly.keeps (Sound loadX509KeyPair) (Sound.new cert key) fun t a ha ht => ht.step ha
  have hfollows := Follows.start hsound hcalls hup hcert hkey hload
  obtain ⟨new, hnew, hpair⟩ := (hfollows.run hload hstill).served
  refine ⟨new, hnew, hpair, fun id first rest hafter hsteps => ?_⟩
  -- the state when the handshake begins, and what is served from there on
  have hfirst : (s.run loadX509KeyPair first).Follows f g pair s.served :=
    hfollows.run hload fun a ha => hstill a (by simp [hafter, ha])
  have hthen := hfirst.handshake loadX509KeyPair id
  obtain ⟨p, hp⟩ := begun loadX509KeyPair hfirst.up id
  obtain ⟨more, hmore, e, he, hid⟩ := returns loadX509KeyPair hp hthen.up ((rank_le p).trans hsteps)
  obtain ⟨earlier, hearlier, -⟩ := hthen.served
  refine ⟨e, ?_, hid⟩
  have hall : s.served ++ new = s.served ++ (earlier ++ more) := by
    rw [← hnew, ← List.append_assoc, ← hearlier, ← hmore, hafter]
    simp [run]
  rw [List.append_cancel_left hall]
  exact List.mem_append_right earlier he

/-- The pair 1 is loaded, and then replaced by the pair 2, both files with one new time. -/
def replaced : List (ReloadAction Nat) :=
  List.replicate 6 (.step 0) ++ [.setCert (some ⟨2, 10⟩), .setKey (some ⟨2, 10⟩)]

theorem rotation_is_served_replaced :
    ∃ new, (((newCertReloader (some ⟨1, 5⟩) (some ⟨1, 5⟩)).run matching replaced).run matching
        (.handshake 1 :: List.replicate 9 (.step 1))).served = [(0, 1)] ++ new ∧
      (∀ e ∈ new, e.2 = 2) ∧ ∃ e ∈ new, e.1 = 1 := by
  have hserved : ((newCertReloader (some ⟨1, 5⟩) (some ⟨1, 5⟩)).run matching replaced).served =
      [(0, 1)] := by
    decide +kernel
  obtain ⟨new, hnew, hpair, hlive⟩ :=
    rotation_is_served matching (some ⟨1, 5⟩) (some ⟨1, 5⟩) replaced
    (.handshake 1 :: List.replicate 9 (.step 1)) _ rfl
    ⟨trivial, trivial, trivial, trivial, trivial, trivial, ⟨by decide +kernel, Each.empty _⟩,
      ⟨by decide +kernel, Each.empty _⟩, trivial⟩
    (by decide +kernel) (by decide +kernel) ⟨2, 10⟩ ⟨2, 10⟩ 2 rfl rfl rfl (by decide)
  rw [hserved] at hnew
  exact ⟨new, hnew, hpair, hlive 1 [] _ rfl (by decide)⟩

-- A change between the reads and the stats is missed: the old pair is recorded with the new times.
example : ((newCertReloader (some ⟨1, 5⟩) (some ⟨1, 5⟩)).run matching
    ([.step 0, .step 0, .setCert (some ⟨2, 10⟩), .setKey (some ⟨2, 11⟩)] ++
      List.replicate 4 (.step 0) ++
      .handshake 1 :: List.replicate 9 (.step 1))).served = [(0, 1), (1, 1)] := by
  decide +kernel

end Reloader

end YellowPages.Cred
