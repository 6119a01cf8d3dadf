import YellowPages.Lib.Strings

/-!
# The identity of an agent

`internal/cred/nodeid.go`. An agent without a configured name writes a generated identity to a file
in its data directory, and reads it back when it is started again. A start can fail, or be killed,
at any point.
-/

namespace YellowPages.Cred

open Lib

/-- `%x` of one byte. -/
def hexByte (b : UInt8) : List Char := [Nat.digitChar (b.toNat / 16), Nat.digitChar (b.toNat % 16)]

def hex (bs : List UInt8) : List Char := bs.flatMap hexByte

/-- `%x-%x-%x-%x-%x` of the five parts. -/
def formatUUID (b : Vector UInt8 16) : List Char :=
  let part (i j : Nat) : List Char := hex (b.toList.extract i j)
  part 0 4 ++ ['-'] ++ part 4 6 ++ ['-'] ++ part 6 8 ++ ['-'] ++ part 8 10 ++ ['-'] ++ part 10 16

def newUUID (b : Vector UInt8 16) : String :=
  let b := b.set 6 ((b[6] &&& 0x0f) ||| 0x40)
  let b := b.set 8 ((b[8] &&& 0x3f) ||| 0x80)
  String.ofList (formatUUID b)

/-- How `WriteFile` ends. -/
inductive WriteOutcome where
  | done
  /-- The file cannot be opened. -/
  | refused
  /-- The write fails, or the process is killed, when `n` characters are on the disk. -/
  | torn (n : Nat)
  deriving DecidableEq

/-- What the operating system answers to one call. -/
structure Answers where
  /-- Whether `ReadFile` succeeds on a file that is there. -/
  readable : Bool := true
  /-- The random bytes, or `none` if there are none to be had. -/
  random : Option (Vector UInt8 16)
  mkdir : Bool := true
  write : WriteOutcome := .done
  deriving DecidableEq

inductive NodeIDError where
  | generate | createDataDir | persist
  deriving DecidableEq

/-- The identity, and the content of the file after the call. -/
def nodeID (nodeName dataDir : String) (sys : Answers) (file : Option String) :
    Except NodeIDError String × Option String :=
  if nodeName ≠ "" then (.ok nodeName, file)
  else if dataDir = "" then
    match sys.random with
    | none => (.error .generate, file)
    | some b => (.ok (newUUID b), file)
  else
    let kept := if sys.readable then trimSpace (file.getD "") else ""
    if kept ≠ "" then (.ok kept, file)
    else
      match sys.random with
      | none => (.error .generate, file)
      | some b =>
        if sys.mkdir = false then (.error .createDataDir, file)
        else
          match sys.write with
          | .done => (.ok (newUUID b), some (newUUID b ++ "\n"))
          | .refused => (.error .persist, file)
          | .torn n => (.error .persist, some (String.ofList ((newUUID b ++ "\n").toList.take n)))

/-- The identities of the processes that came up, first to last. -/
def restarts (nodeName dataDir : String) : Option String → List Answers → List String
  | _, [] => []
  | file, sys :: later =>
    let (id, file) := nodeID nodeName dataDir sys file
    match id with
    | .ok id => id :: restarts nodeName dataDir file later
    | .error _ => restarts nodeName dataDir file later

/-! ## The form of a generated identity -/

def isHex (c : Char) : Bool := c.isDigit || ('a' ≤ c && c ≤ 'f')

/-- What may stand at each place of a version 4 UUID. -/
def v4 : List (Char → Bool) :=
  List.replicate 8 isHex ++ [(· == '-')] ++ List.replicate 4 isHex ++ [(· == '-')] ++
    ([(· == '4')] ++ List.replicate 3 isHex) ++ [(· == '-')] ++
    ([['8', '9', 'a', 'b'].contains] ++ List.replicate 3 isHex) ++ [(· == '-')] ++
      List.replicate 12 isHex

/-- Place by place. -/
def Fits : List (Char → Bool) → List Char → Prop := List.Forall₂ fun ok c => ok c = true

theorem Fits.append {ps qs : List (Char → Bool)} {cs ds : List Char} (h1 : Fits ps cs)
    (h2 : Fits qs ds) :
    Fits (ps ++ qs) (cs ++ ds) := List.rel_append h1 h2

theorem Fits.single {p : Char → Bool} {c : Char} (h : p c = true) : Fits [p] [c] := .cons h .nil

theorem isHex_digitChar {n : Nat} (h : n < 16) : isHex (Nat.digitChar n) = true := by
  interval_cases n <;> rfl

theorem isHex_high (b : UInt8) : isHex (Nat.digitChar (b.toNat / 16)) = true :=
  isHex_digitChar (by have := b.toNat_lt; omega)

theorem isHex_low (b : UInt8) : isHex (Nat.digitChar (b.toNat % 16)) = true :=
  isHex_digitChar (by omega)

theorem version_high (b : UInt8) : ((b &&& 0x0f) ||| 0x40).toNat / 16 = 4 := by
  revert b
  decide +kernel

theorem variant_high (b : UInt8) :
    Nat.digitChar (((b &&& 0x3f) ||| 0x80).toNat / 16) ∈ ['8', '9', 'a', 'b'] := by
  revert b
  decide +kernel

theorem fits_hex (bs : List UInt8) : Fits (List.replicate (2 * bs.length) isHex) (hex bs) := by
  induction bs with
  | nil => exact .nil
  | cons b bs ih => exact .cons (isHex_high b) (.cons (isHex_low b) ih)

section UUID

variable (v : Vector UInt8 16)

theorem fits_part {i j n : Nat} (hj : j ≤ 16) (hn : n = 2 * (j - i)) :
    Fits (List.replicate n isHex) (hex (v.toList.extract i j)) := by
  have hlen : (v.toList.extract i j).length = j - i := by simp; omega
  rw [hn, ← hlen]
  exact fits_hex (v.toList.extract i j)

theorem fits_pair {i : Nat} (hi : i + 1 < 16) {p : Char → Bool}
    (hp : p (Nat.digitChar (v[i].toNat / 16)) = true) :
    Fits ([p] ++ List.replicate 3 isHex) (hex (v.toList.extract i (i + 2))) := by
  have hpair : v.toList.extract i (i + 2) = [v[i], v[i + 1]] := by
    simp [List.drop_eq_getElem_cons, hi, Nat.lt_of_succ_lt hi]
  rw [hpair]
  exact .cons hp (.cons (isHex_low _) (.cons (isHex_high _) (.cons (isHex_low _) .nil)))

theorem fits_formatUUID (hversion : v[6].toNat / 16 = 4)
    (hvariant : Nat.digitChar (v[8].toNat / 16) ∈ ['8', '9', 'a', 'b']) : Fits v4 (formatUUID v) := by
  have hdash : Fits [(· == '-')] ['-'] := .single rfl
  have h6 : Fits ([(· == '4')] ++ List.replicate 3 isHex) (hex (v.toList.extract 6 8)) :=
    fits_pair v (by decide) (by simp [hversion])
  have h8 :
      Fits ([['8', '9', 'a', 'b'].contains] ++ List.replicate 3 isHex) (hex (v.toList.extract 8 10)) :=
    fits_pair v (by decide) (List.contains_iff_mem.mpr hvariant)
  unfold formatUUID v4
  dsimp only
  apply Fits.append _ (fits_part v (by decide) (by decide))
  apply Fits.append _ hdash
  apply Fits.append _ h8
  apply Fits.append _ hdash
  apply Fits.append _ h6
  apply Fits.append _ hdash
  apply Fits.append _ (fits_part v (by decide) (by decide))
  exact (fits_part v (by decide) (by decide)).append hdash

end UUID

theorem fits_newUUID (b : Vector UInt8 16) : Fits v4 (newUUID b).toList := by
  unfold newUUID
  rw [String.toList_ofList]
  apply fits_formatUUID
  · simpa using version_high b[6]
  · simpa using variant_high b[8]

/-! ## What is left on the disk -/

theorem isSpace_of_isHex {c : Char} (h : isHex c = true) : isSpace c = false := by
  rcases Bool.or_eq_true_iff.mp h with hdigit | hletter
  · exact isSpace_of_isDigit hdigit
  · have hc : 97 ≤ c.toNat ∧ c.toNat ≤ 102 := by simpa [Char.le_def, UInt32.le_iff_toNat_le]
      using hletter
    simp only [isSpace, List.mem_cons, List.not_mem_nil, or_false, decide_eq_false_iff_not]
    omega

theorem isSpace_of_mem_v4 {p : Char → Bool} (hp : p ∈ v4) {c : Char} (hc : p c = true) :
    isSpace c = false := by
  have hcases : p = isHex ∨ p = (· == '-') ∨ p = (· == '4') ∨
      p = ['8', '9', 'a', 'b'].contains := by
    simpa [v4, or_assoc, or_comm, or_left_comm] using hp
  rcases hcases with rfl | rfl | rfl | rfl
  · exact isSpace_of_isHex hc
  · rw [beq_iff_eq.mp hc]; rfl
  · rw [beq_iff_eq.mp hc]; rfl
  · have hmem : c ∈ ['8', '9', 'a', 'b'] := List.contains_iff_mem.mp hc
    fin_cases hmem <;> rfl

theorem Fits.isSpace {ps : List (Char → Bool)} {u : List Char} (h : Fits ps u) (hps : ps ⊆ v4) :
    ∀ c ∈ u, isSpace c = false := by
  induction h with
  | nil => simp
  | cons hc _ ih =>
    obtain ⟨hp, hps⟩ := List.cons_subset.mp hps
    exact List.forall_mem_cons.mpr ⟨isSpace_of_mem_v4 hp hc, ih hps⟩

theorem isSpace_newUUID (b : Vector UInt8 16) : ∀ c ∈ (newUUID b).toList, isSpace c = false :=
  (fits_newUUID b).isSpace (List.Subset.refl _)

theorem newUUID_ne_empty (b : Vector UInt8 16) : newUUID b ≠ "" := by
  intro h
  have hlen := (fits_newUUID b).length_eq
  simp [h, v4] at hlen

theorem trimSpace_of_no_space {s : String} (h : ∀ c ∈ s.toList, isSpace c = false) :
    trimSpace s = s := by
  by_cases hne : s = ""
  · rw [hne]; rfl
  · simpa using trimSpace_append_space s "" h (by simp) hne

theorem trimSpace_line (b : Vector UInt8 16) : trimSpace (newUUID b ++ "\n") = newUUID b :=
  trimSpace_append_space _ _ (isSpace_newUUID b) (by simp [isSpace]) (newUUID_ne_empty b)

/-- A torn line is read as the part of the identity that was written. -/
theorem trimSpace_torn (b : Vector UInt8 16) (n : Nat) :
    trimSpace (String.ofList ((newUUID b ++ "\n").toList.take n)) = String.ofList
      ((newUUID b).toList.take n) := by
  by_cases hn : n ≤ (newUUID b).toList.length
  · rw [String.toList_append, List.take_append_of_le_length hn]
    apply trimSpace_of_no_space
    intro c hc
    rw [String.toList_ofList] at hc
    exact isSpace_newUUID b c (List.mem_of_mem_take hc)
  · have hall : (newUUID b ++ "\n").toList.length ≤ n := by
      rw [String.toList_append, List.length_append]
      simp at hn ⊢
      omega
    rw [List.take_of_length_le hall, String.ofList_toList, trimSpace_line,
      List.take_of_length_le (by omega),
      String.ofList_toList]

/-- An identity that came out of `newUUID`, at least in part. -/
def Generated (whole : Prop) (x : String) : Prop :=
  ∃ u, Fits v4 u ∧ x.toList <+: u ∧ (whole → x.toList = u)

theorem generated_newUUID {whole : Prop} (b : Vector UInt8 16) : Generated whole (newUUID b) :=
  ⟨_, fits_newUUID b, List.prefix_rfl, fun _ => rfl⟩

/-! ## One start, and the starts after it -/

section Starts

variable {dataDir : String} (hdir : dataDir ≠ "") {sys : Answers} (hreads : sys.readable = true)
  {file : Option String}
include hdir hreads

theorem nodeID_of_kept (hkept : trimSpace (file.getD "") ≠ "") :
    nodeID "" dataDir sys file = (.ok (trimSpace (file.getD "")), file) := by
  simp [nodeID, hdir, hreads, hkept]

/-- With nothing kept the start generates an identity, and comes up only if all of it was written. -/
theorem nodeID_cases (hkept : trimSpace (file.getD "") = "") :
    (∃ b, nodeID "" dataDir sys file = (.ok (newUUID b), some (newUUID b ++ "\n"))) ∨
      ∃ err, nodeID "" dataDir sys file = (.error err, file) ∨
        ∃ b n, sys.write = .torn n ∧
          nodeID "" dataDir sys file =
            (.error err, some (String.ofList ((newUUID b ++ "\n").toList.take n))) := by
  unfold nodeID
  simp only [ne_eq, not_true_eq_false, if_false, hdir, hreads, if_true, hkept]
  cases hrandom : sys.random with
  | none => exact Or.inr ⟨_, Or.inl rfl⟩
  | some b =>
    by_cases hmkdir : sys.mkdir = false
    · exact Or.inr ⟨_, Or.inl (if_pos hmkdir)⟩
    · simp only [if_neg hmkdir]
      cases hwrite : sys.write with
      | done => exact Or.inl ⟨b, rfl⟩
      | refused => exact Or.inr ⟨_, Or.inl rfl⟩
      | torn n => exact Or.inr ⟨_, Or.inr ⟨b, n, rfl, rfl⟩⟩

end Starts

theorem restarts_of_name {nodeName : String} (hname : nodeName ≠ "") (dataDir : String)
    (file : Option String) (starts : List Answers) :
    ∀ x ∈ restarts nodeName dataDir file starts, x = nodeName := by
  induction starts with
  | nil => simp [restarts]
  | cons sys later ih => simpa [restarts, nodeID, hname] using ih

section Restarts

variable {dataDir : String} (hdir : dataDir ≠ "") {starts : List Answers} (hreads : ∀ sys ∈ starts,
  sys.readable = true)
include hdir hreads

/-- Once the file holds an identity, every later start comes up with it. -/
theorem restarts_of_kept {file : Option String} (hkept : trimSpace (file.getD "") ≠ "") :
    ∀ x ∈ restarts "" dataDir file starts, x = trimSpace (file.getD "") := by
  induction starts with
  | nil => simp [restarts]
  | cons sys later ih =>
    obtain ⟨hsys, hlater⟩ := List.forall_mem_cons.mp hreads
    rw [restarts, nodeID_of_kept hdir hsys hkept]
    exact List.forall_mem_cons.mpr ⟨rfl, ih hlater⟩

theorem restarts_eq (file : Option String) :
    ∀ x ∈ restarts "" dataDir file starts, ∀ y ∈ restarts "" dataDir file starts, x = y := by
  induction starts generalizing file with
  | nil => simp [restarts]
  | cons sys later ih =>
    by_cases hkept : trimSpace (file.getD "") = ""
    · obtain ⟨hsys, hlater⟩ := List.forall_mem_cons.mp hreads
      rw [restarts]
      obtain ⟨b, hid⟩ | ⟨err, hid | ⟨b, n, -, hid⟩⟩ := nodeID_cases hdir hsys hkept
      · have hline : trimSpace ((some (newUUID b ++ "\n")).getD "") = newUUID b := trimSpace_line b
        have hrest := restarts_of_kept hdir hlater (hline ▸ newUUID_ne_empty b)
        rw [hline] at hrest
        rw [hid]
        have hall : ∀ x ∈ newUUID b :: restarts "" dataDir (some (newUUID b ++ "\n")) later,
            x = newUUID b :=
          List.forall_mem_cons.mpr ⟨rfl, hrest⟩
        exact fun x hx y hy => (hall x hx).trans (hall y hy).symm
      · rw [hid]
        exact ih hlater file
      · rw [hid]
        exact ih hlater _
    · have hall := restarts_of_kept hdir hreads hkept
      exact fun x hx y hy => (hall x hx).trans (hall y hy).symm

theorem restarts_generated {whole : Prop}
    (hwhole : whole → ∀ sys ∈ starts, ∀ n, sys.write ≠ .torn n) {file : Option String}
    (hfile : trimSpace (file.getD "") ≠ "" → Generated whole (trimSpace (file.getD ""))) :
    ∀ x ∈ restarts "" dataDir file starts, Generated whole x := by
  induction starts generalizing file with
  | nil => simp [restarts]
  | cons sys later ih =>
    obtain ⟨hsys, hlater⟩ := List.forall_mem_cons.mp hreads
    have hwhole' : whole → ∀ sys ∈ later, ∀ n, sys.write ≠ .torn n :=
      fun h => (List.forall_mem_cons.mp (hwhole h)).2
    by_cases hkept : trimSpace (file.getD "") = ""
    · rw [restarts]
      obtain ⟨b, hid⟩ | ⟨err, hid | ⟨b, n, hwrite, hid⟩⟩ :=
        nodeID_cases hdir hsys hkept <;> rw [hid]
      · refine List.forall_mem_cons.mpr ⟨generated_newUUID b, ih hlater hwhole' fun _ => ?_⟩
        rw [Option.getD_some, trimSpace_line]
        exact generated_newUUID b
      · exact ih hlater hwhole' hfile
      · refine ih hlater hwhole' fun _ => ?_
        rw [Option.getD_some, trimSpace_torn]
        refine ⟨_, fits_newUUID b, ?_, fun h => absurd hwrite (hwhole h sys (by simp) n)⟩
        rw [String.toList_ofList]
        exact List.take_prefix n _
    · intro x hx
      rw [restarts_of_kept hdir hreads hkept x hx]
      exact hfile hkept

end Restarts

/-- However often an agent is started, and wherever its starts fail or are killed, all the processes
that come up carry one identity, if it has a name or a data directory from which what is there can be
read. A generated identity is a version 4 UUID, or the front of one if a start died while writing it. -/
theorem restarted_agent_keeps_id (nodeName dataDir : String) (file : Option String)
    (starts : List Answers)
    (hpersists : nodeName ≠ "" ∨ dataDir ≠ "" ∧ ∀ sys ∈ starts, sys.readable = true) :
    (∀ x ∈ restarts nodeName dataDir file starts,
      ∀ y ∈ restarts nodeName dataDir file starts, x = y) ∧
      (nodeName = "" → file = none → ∀ x ∈ restarts nodeName dataDir file starts,
        Generated (∀ sys ∈ starts, ∀ n, sys.write ≠ .torn n) x) := by
  by_cases hname : nodeName = ""
  · subst hname
    obtain ⟨hdir, hreads⟩ := hpersists.resolve_left (by simp)
    refine ⟨restarts_eq hdir hreads file, fun _ hnone => ?_⟩
    subst hnone
    exact restarts_generated hdir hreads id fun hkept => absurd rfl hkept
  · have hall := restarts_of_name hname dataDir file starts
    exact ⟨fun x hx y hy => (hall x hx).trans (hall y hy).symm, fun h => absurd h hname⟩

def zeros : Vector UInt8 16 := Vector.replicate 16 0

theorem restarted_agent_keeps_id_second :
    restarts "" "/var/lib/yp" none [{ random := none }, { random := some zeros }, { random := none }] =
        ["00000000-0000-4000-8000-000000000000", "00000000-0000-4000-8000-000000000000"] ∧
      Fits v4 "00000000-0000-4000-8000-000000000000".toList := by
  have hids :
      restarts "" "/var/lib/yp" none [{ random := none }, { random := some zeros },
        { random := none }] =
      ["00000000-0000-4000-8000-000000000000",
        "00000000-0000-4000-8000-000000000000"] := by decide +kernel
  have hkeeps := restarted_agent_keeps_id "" "/var/lib/yp" none
    [{ random := none }, { random := some zeros }, { random := none }]
      (Or.inr ⟨by decide, by decide⟩)
  obtain ⟨u, hu, -, hwhole⟩ :=
    hkeeps.2 rfl rfl "00000000-0000-4000-8000-000000000000" (by simp [hids])
  rw [hwhole (by simp)]
  exact ⟨hids, hu⟩

-- A start that dies after nine characters leaves them to the next one as its identity.
example :
    restarts "" "/var/lib/yp" none [{ random := some zeros, write := .torn 9 },
      { random := some zeros }] =
    ["00000000-"] := by decide +kernel

-- A file that cannot be read for once is replaced, and the identity with it.
example : restarts "" "/var/lib/yp" (some "agent-1\n")
    [{ random := none }, { readable := false, random := some zeros }, { random := none }] =
    ["agent-1", "00000000-0000-4000-8000-000000000000",
      "00000000-0000-4000-8000-000000000000"] := by decide +kernel

end YellowPages.Cred
