import UmnProjects.Swish.Pipeline
import Mathlib.Data.List.TakeWhile

/-!
The reading of commands in `main` of `swish.c`. `tokenize` is linked from elsewhere: what it makes
of a string, and how it leaves the buffer, are parameters.
-/
namespace UmnProjects.Swish.CommandLines

def CMD_LEN : Nat := 512

abbrev Bytes := List UInt8

def newline : UInt8 := 10

/-- The array `cmd`. -/
structure Cmd where
  bytes : Bytes
  size : bytes.length = CMD_LEN

def Cmd.set (cmd : Cmd) (i : Nat) (c : UInt8) : Cmd where
  bytes := cmd.bytes.set i c
  size := by rw [List.length_set, cmd.size]

/-- What `fgets` takes from a stream, `count` characters at most, and what it leaves there. -/
def takeLine : Nat → Bytes → Bytes × Bytes
  | 0, stream => ([], stream)
  | _ + 1, [] => ([], [])
  | count + 1, c :: stream =>
      if c = newline then ([c], stream)
      else
        let taken := takeLine count stream
        (c :: taken.1, taken.2)

theorem length_takeLine (count : Nat) (stream : Bytes) :
    (takeLine count stream).1.length ≤ count := by
  induction count generalizing stream with
  | zero => exact Nat.le_refl _
  | succ count ih =>
      cases stream with
      | nil => exact Nat.zero_le _
      | cons c stream =>
          rw [takeLine]
          split
          · exact Nat.succ_le_succ (Nat.zero_le _)
          · exact Nat.succ_le_succ (ih stream)

/-- The characters, and `NUL` after them. -/
def Cmd.put (cmd : Cmd) (chars : Bytes) (h : chars.length < CMD_LEN) : Cmd where
  bytes := chars ++ 0 :: cmd.bytes.drop (chars.length + 1)
  size := by
    rw [List.length_append, List.length_cons, List.length_drop, cmd.size]
    omega

/-- What is stored before the `NUL`, the array and the rest of the stream; none at its end. -/
def fgets (cmd : Cmd) (stream : Bytes) : Option (Bytes × Cmd × Bytes) :=
  match stream with
  | [] => none
  | c :: stream =>
      let taken := takeLine (CMD_LEN - 1) (c :: stream)
      some (taken.1, cmd.put taken.1 (Nat.lt_succ_of_le (length_takeLine _ _)), taken.2)

/-- Where the loop over `cmd` finds a newline; none when it leaves the array. -/
def scan : Bytes → Nat → Option Nat
  | [], _ => none
  | c :: bytes, i => if c = newline then some i else scan bytes (i + 1)

/-- An array read as a string. -/
def Cmd.string (cmd : Cmd) : Bytes :=
  cmd.bytes.takeWhile (· ≠ 0)

inductive Response where
  | failed
  | prompt
  | exit
  | unsupported
  | pipeline (tokens : Tokens)

/-- What `main` does with the tokens; none when `tokenize` fails. -/
def respond : Option Tokens → Response
  | none => .failed
  | some tokens =>
      if tokens.length = 0 then .prompt
      else if tokens[0]? = some "exit" then .exit
      else if "|" ∈ tokens then .pipeline tokens
      else .unsupported

/-- The status with which `main` returns, if it does. -/
def Response.status : Response → Option Int
  | .failed => some 1
  | .exit => some 0
  | _ => none

/-- One round of the loop: what `fgets` stored, where the scan stopped and what `tokenize` got. -/
structure Round where
  stored : Bytes
  stop : Option Nat
  passed : Option Bytes

/-- The rounds, and the status at the end; none where the scan left the array. -/
structure Session where
  rounds : List Round
  status : Option Int

section

variable (tokenize : Bytes → Option Tokens) (after : Cmd → Cmd)

/-- The loop of `main`, with so many rounds at most. -/
def mainLoop : Nat → Cmd → Bytes → Session
  | 0, _, _ => ⟨[], some 0⟩
  | fuel + 1, cmd, stdin => match fgets cmd stdin with
    | none => ⟨[], some 0⟩
    | some (stored, cmd, stdin) => match scan cmd.bytes 0 with
      | none => ⟨[⟨stored, none, none⟩], none⟩
      | some i =>
          let cmd := cmd.set i 0
          let round : Round := ⟨stored, some i, some cmd.string⟩
          match (respond (tokenize cmd.string)).status with
          | some status => ⟨[round], some status⟩
          | none =>
              let session := mainLoop fuel (after cmd) stdin
              ⟨round :: session.rounds, session.status⟩

def main (cmd : Cmd) (stdin : Bytes) : Session :=
  mainLoop tokenize after stdin.length cmd stdin

end

/-! ### The lines of the input -/

structure Line where
  text : Bytes
  /-- A newline follows. -/
  ended : Bool

def lines : Bytes → List Line
  | [] => []
  | c :: stream =>
      if c = newline then ⟨[], true⟩ :: lines stream
      else match lines stream with
        | [] => [⟨[c], false⟩]
        | line :: rest => ⟨c :: line.text, line.ended⟩ :: rest

/-- The lines up to the first at which `main` returns. -/
def reached (tokenize : Bytes → Option Tokens) : List Line → List Line
  | [] => []
  | line :: rest =>
      line :: match (respond (tokenize line.text)).status with
        | some _ => []
        | none => reached tokenize rest

/-- The line and its newline fit in the array, before the `NUL`, and it is a string. -/
structure Fits (line : Line) : Prop where
  ended : line.ended = true
  short : line.text.length < CMD_LEN - 1
  string : 0 ∉ line.text

/-- Every scan stays within what `fgets` stored and its `NUL`, and the strings passed to `tokenize`
are lines of the input, from the first on. -/
structure Reads (input : List Line) (rounds : List Round) : Prop where
  within : ∀ round ∈ rounds, ∃ i, round.stop = some i ∧ i ≤ round.stored.length
  complete : rounds.map Round.passed <+: input.map fun line => some line.text

variable {text rest stream : Bytes}

theorem lines_ended (h : newline ∉ text) :
    lines (text ++ newline :: rest) = ⟨text, true⟩ :: lines rest := by
  induction text with
  | nil => rw [List.nil_append, lines, if_pos rfl]
  | cons c text ih =>
      obtain ⟨hc, htext⟩ := List.ne_and_not_mem_of_not_mem_cons h
      rw [List.cons_append, lines, if_neg (Ne.symm hc), ih htext]

theorem lines_unended (h : newline ∉ text) (hne : text ≠ []) : lines text = [⟨text, false⟩] := by
  induction text with
  | nil => exact absurd rfl hne
  | cons c text ih =>
      obtain ⟨hc, htext⟩ := List.ne_and_not_mem_of_not_mem_cons h
      rw [lines, if_neg (Ne.symm hc)]
      cases text with
      | nil => rfl
      | cons d text => rw [ih htext (List.cons_ne_nil d text)]

theorem takeLine_ended (h : newline ∉ text) {count : Nat} (hcount : text.length < count) :
    takeLine count (text ++ newline :: rest) = (text ++ [newline], rest) := by
  induction text generalizing count with
  | nil =>
      cases count with
      | zero => exact absurd hcount (Nat.not_lt_zero _)
      | succ count => rw [List.nil_append, takeLine, if_pos rfl]; rfl
  | cons c text ih =>
      obtain ⟨hc, htext⟩ := List.ne_and_not_mem_of_not_mem_cons h
      cases count with
      | zero => exact absurd hcount (Nat.not_lt_zero _)
      | succ count =>
          rw [List.cons_append, takeLine, if_neg (Ne.symm hc),
            ih htext (Nat.lt_of_succ_lt_succ hcount)]
          rfl

/-- No newline among the characters there is space for. -/
theorem takeLine_unended {count : Nat} (h : newline ∉ stream.take count) :
    takeLine count stream = (stream.take count, stream.drop count) := by
  induction count generalizing stream with
  | zero => rfl
  | succ count ih =>
      cases stream with
      | nil => rfl
      | cons c stream =>
          rw [List.take_succ_cons] at h
          obtain ⟨hc, hrest⟩ := List.ne_and_not_mem_of_not_mem_cons h
          rw [takeLine, if_neg (Ne.symm hc), ih hrest]
          rfl

theorem scan_append (h : newline ∉ text) (i : Nat) :
    scan (text ++ rest) i = scan rest (i + text.length) := by
  induction text generalizing i with
  | nil => rfl
  | cons c text ih =>
      obtain ⟨hc, htext⟩ := List.ne_and_not_mem_of_not_mem_cons h
      rw [List.cons_append, scan, if_neg (Ne.symm hc), ih htext, List.length_cons]
      congr 1
      omega

theorem le_of_scan {i j : Nat} (h : scan stream i = some j) : i ≤ j := by
  induction stream generalizing i with
  | nil => cases h
  | cons c stream ih =>
      rw [scan] at h
      split at h
      · exact Nat.le_of_eq (Option.some.inj h)
      · exact Nat.le_of_succ_le (ih h)

/-! ### One round -/

theorem fgets_eq (cmd : Cmd) (hne : stream ≠ []) {taken : Bytes × Bytes}
    (htaken : takeLine (CMD_LEN - 1) stream = taken) :
    ∃ hfits, fgets cmd stream = some (taken.1, cmd.put taken.1 hfits, taken.2) := by
  subst htaken
  cases stream with
  | nil => exact absurd rfl hne
  | cons c stream => exact ⟨_, rfl⟩

/-- The string that is left when a line's newline is overwritten. -/
theorem string_set {cmd : Cmd} {more : Bytes} (hbytes : cmd.bytes = text ++ newline :: more) :
    (cmd.set text.length 0).string = text.takeWhile (· ≠ 0) := by
  have hset : (cmd.set text.length 0).bytes = text ++ 0 :: more := by
    change cmd.bytes.set text.length 0 = _
    rw [hbytes, List.set_append_right _ _ (Nat.le_refl _), Nat.sub_self, List.set_cons_zero]
  rw [Cmd.string, hset, List.takeWhile_append]
  split
  · next hall =>
      rw [List.takeWhile_cons_of_neg (by decide), List.append_nil]
      exact (List.IsPrefix.eq_of_length (List.takeWhile_prefix _) hall).symm
  · rfl

section

variable (tokenize : Bytes → Option Tokens) (after : Cmd → Cmd) (fuel : Nat) (cmd : Cmd)

/-- The round of a line that fits with its newline, and the rounds after it. -/
theorem mainLoop_ended (h : newline ∉ text) (hshort : text.length < CMD_LEN - 1) (rest : Bytes) :
    ∃ cmd', (mainLoop tokenize after (fuel + 1) cmd (text ++ newline :: rest)).rounds =
      ⟨text ++ [newline], some text.length, some (text.takeWhile (· ≠ 0))⟩ ::
        match (respond (tokenize (text.takeWhile (· ≠ 0)))).status with
        | some _ => []
        | none => (mainLoop tokenize after fuel cmd' rest).rounds := by
  have hne : text ++ newline :: rest ≠ [] := List.append_ne_nil_of_right_ne_nil _ nofun
  obtain ⟨hfits, hfgets⟩ := fgets_eq cmd hne (takeLine_ended h hshort)
  have hbytes : (cmd.put (text ++ [newline]) hfits).bytes =
      text ++ newline :: 0 :: cmd.bytes.drop ((text ++ [newline]).length + 1) :=
    List.append_assoc _ _ _
  have hscan : scan (cmd.put (text ++ [newline]) hfits).bytes 0 = some text.length := by
    rw [hbytes, scan_append h, scan, if_pos rfl, Nat.zero_add]
  refine ⟨after ((cmd.put (text ++ [newline]) hfits).set text.length 0), ?_⟩
  simp only [mainLoop, hfgets, hscan, string_set hbytes]
  cases (respond (tokenize (text.takeWhile (· ≠ 0)))).status with
  | some status => rfl
  | none => rfl

/-- Without a newline among what `fgets` can store, the scan passes the `NUL`. -/
theorem mainLoop_unended (hne : stream ≠ []) (h : newline ∉ stream.take (CMD_LEN - 1)) :
    ∃ round more, (mainLoop tokenize after (fuel + 1) cmd stream).rounds = round :: more ∧
      ∀ i, round.stop = some i → round.stored.length < i := by
  obtain ⟨hfits, hfgets⟩ := fgets_eq cmd hne (takeLine_unended h)
  have hpast : ∀ i, scan (cmd.put (stream.take (CMD_LEN - 1)) hfits).bytes 0 = some i →
      (stream.take (CMD_LEN - 1)).length < i := by
    intro i hscan
    rw [Cmd.put, scan_append h, scan, if_neg (by decide), Nat.zero_add] at hscan
    exact le_of_scan hscan
  simp only [mainLoop, hfgets]
  cases hscan : scan (cmd.put (stream.take (CMD_LEN - 1)) hfits).bytes 0 with
  | none => exact ⟨_, _, rfl, nofun⟩
  | some i =>
      dsimp only
      split
      · refine ⟨_, _, rfl, ?_⟩
        intro j hj
        cases hj
        exact hpast i hscan
      · refine ⟨_, _, rfl, ?_⟩
        intro j hj
        cases hj
        exact hpast i hscan

end

/-! ### The end of the reading -/

theorem length_takeLine_rest (count : Nat) (stream : Bytes) :
    (takeLine count stream).2.length ≤ stream.length := by
  induction count generalizing stream with
  | zero => exact Nat.le_refl _
  | succ count ih =>
      cases stream with
      | nil => exact Nat.le_refl _
      | cons c stream =>
          rw [takeLine]
          split
          · exact Nat.le_succ _
          · exact Nat.le_succ_of_le (ih stream)

/-- Each round takes a character at least. -/
theorem length_fgets_rest {cmd cmd' : Cmd} {stored : Bytes}
    (h : fgets cmd stream = some (stored, cmd', rest)) : rest.length < stream.length := by
  cases stream with
  | nil => cases h
  | cons c stream =>
      cases h
      rw [show CMD_LEN - 1 = 510 + 1 from rfl, takeLine]
      split
      · exact Nat.lt_succ_self _
      · exact Nat.lt_succ_of_le (length_takeLine_rest 510 stream)

/-- More rounds than there are characters make no difference. -/
theorem mainLoop_enough (tokenize : Bytes → Option Tokens) (after : Cmd → Cmd) (fuel : Nat) :
    ∀ (more : Nat) (cmd : Cmd) (stdin : Bytes), stdin.length ≤ fuel →
      mainLoop tokenize after (fuel + more) cmd stdin =
        mainLoop tokenize after fuel cmd stdin := by
  induction fuel with
  | zero =>
      intro more cmd stdin hfuel
      rw [List.eq_nil_of_length_eq_zero (Nat.le_zero.mp hfuel)]
      cases more with
      | zero => rfl
      | succ more => rfl
  | succ fuel ih =>
      intro more cmd stdin hfuel
      rw [Nat.add_right_comm]
      simp only [mainLoop]
      cases hfgets : fgets cmd stdin with
      | none => rfl
      | some taken =>
          have hrest : taken.2.2.length < stdin.length := length_fgets_rest hfgets
          simp only [ih more _ taken.2.2 (by omega)]

/-! ### The whole input -/

theorem not_reads_of_past {input : List Line} {round : Round} {more : List Round}
    (hpast : ∀ i, round.stop = some i → round.stored.length < i) :
    ¬ Reads input (round :: more) := by
  intro hreads
  obtain ⟨i, hstop, hle⟩ := hreads.within round List.mem_cons_self
  exact absurd hle (Nat.not_le_of_lt (hpast i hstop))

/-- One line and its round, before the others. -/
theorem reads_cons_iff {line : Line} {input : List Line} {round : Round} {more : List Round}
    (hwithin : ∃ i, round.stop = some i ∧ i ≤ round.stored.length) :
    Reads (line :: input) (round :: more) ↔
      round.passed = some line.text ∧ Reads input more := by
  constructor
  · intro h
    obtain ⟨hpassed, hmore⟩ := List.cons_prefix_cons.mp h.complete
    exact ⟨hpassed, fun r hr => h.within r (List.mem_cons_of_mem _ hr), hmore⟩
  · intro h
    refine ⟨?_, List.cons_prefix_cons.mpr ⟨h.1, h.2.complete⟩⟩
    intro r hr
    cases hr with
    | head => exact hwithin
    | tail _ hr => exact h.2.within r hr

theorem reads_nil (input : List Line) : Reads input [] where
  within := nofun
  complete := List.nil_prefix

theorem passed_iff : text.takeWhile (· ≠ 0) = text ↔ 0 ∉ text := by
  rw [List.takeWhile_eq_self_iff]
  constructor
  · intro h hmem
    exact absurd (h 0 hmem) (by decide)
  · intro h c hc
    exact decide_eq_true fun hzero => h (hzero ▸ hc)

/-- A first line that fits is read in one round. -/
theorem reads_ended_iff (tokenize : Bytes → Option Tokens) (after : Cmd → Cmd) (fuel : Nat)
    (cmd : Cmd) (h : newline ∉ text) (hshort : text.length < CMD_LEN - 1)
    (hrest : ∀ cmd', Reads (lines rest) (mainLoop tokenize after fuel cmd' rest).rounds ↔
      ∀ line ∈ reached tokenize (lines rest), Fits line) :
    Reads (lines (text ++ newline :: rest))
        (mainLoop tokenize after (fuel + 1) cmd (text ++ newline :: rest)).rounds ↔
      ∀ line ∈ reached tokenize (lines (text ++ newline :: rest)), Fits line := by
  obtain ⟨cmd', hround⟩ := mainLoop_ended tokenize after fuel cmd h hshort rest
  have hwithin : ∃ i, some text.length = some i ∧ i ≤ (text ++ [newline]).length :=
    ⟨text.length, rfl, by rw [List.length_append]; exact Nat.le_add_right _ _⟩
  rw [hround, lines_ended h, reached, reads_cons_iff hwithin, List.forall_mem_cons]
  by_cases hstring : 0 ∈ text
  · -- The string that is passed stops at the `NUL` within the line.
    constructor
    · intro hreads
      exact absurd hstring (passed_iff.mp (Option.some.inj hreads.1))
    · intro hfits
      exact absurd hstring hfits.1.string
  · have hfirst : Fits ⟨text, true⟩ := ⟨rfl, hshort, hstring⟩
    rw [passed_iff.mpr hstring]
    cases (respond (tokenize text)).status with
    | some status => exact ⟨fun _ => ⟨hfirst, nofun⟩, fun _ => ⟨rfl, reads_nil _⟩⟩
    | none =>
        dsimp only
        rw [hrest cmd']
        exact ⟨fun hreads => ⟨hfirst, hreads.2⟩, fun hfits => ⟨rfl, hfits.2⟩⟩

/-- A first line that does not fit, and its first round. -/
theorem reads_unended_iff (tokenize : Bytes → Option Tokens) (after : Cmd → Cmd) (fuel : Nat)
    (cmd : Cmd) (hne : stream ≠ []) (h : newline ∉ stream.take (CMD_LEN - 1)) :
    Reads (lines stream) (mainLoop tokenize after (fuel + 1) cmd stream).rounds ↔
      ∀ line ∈ reached tokenize (lines stream), Fits line := by
  obtain ⟨round, more, hrounds, hpast⟩ := mainLoop_unended tokenize after fuel cmd hne h
  rw [hrounds]
  constructor
  · intro hreads
    exact absurd hreads (not_reads_of_past hpast)
  · intro hfits
    by_cases hmem : newline ∈ stream
    · obtain ⟨text, rest, heq, htext⟩ := List.eq_append_cons_of_mem hmem
      rw [heq, lines_ended htext, reached] at hfits
      have hshort : text.length < CMD_LEN - 1 := (hfits _ List.mem_cons_self).short
      obtain ⟨space, hspace⟩ := Nat.exists_eq_add_of_lt hshort
      refine absurd ?_ h
      rw [heq, List.take_append, show CMD_LEN - 1 - text.length = space + 1 by omega,
        List.take_succ_cons]
      exact List.mem_append_right _ List.mem_cons_self
    · rw [lines_unended hmem hne, reached] at hfits
      exact absurd (hfits _ List.mem_cons_self).ended nofun

theorem mainLoop_reads_iff (tokenize : Bytes → Option Tokens) (after : Cmd → Cmd) (fuel : Nat) :
    ∀ (cmd : Cmd) (stdin : Bytes), stdin.length ≤ fuel →
      (Reads (lines stdin) (mainLoop tokenize after fuel cmd stdin).rounds ↔
        ∀ line ∈ reached tokenize (lines stdin), Fits line) := by
  induction fuel with
  | zero =>
      intro cmd stdin hfuel
      rw [List.eq_nil_of_length_eq_zero (Nat.le_zero.mp hfuel)]
      exact ⟨fun _ => nofun, fun _ => reads_nil _⟩
  | succ fuel ih =>
      intro cmd stdin hfuel
      by_cases hempty : stdin = []
      · rw [hempty]
        exact ⟨fun _ => nofun, fun _ => reads_nil _⟩
      by_cases hmem : newline ∈ stdin.take (CMD_LEN - 1)
      · obtain ⟨text, rest, heq, htext⟩ := List.eq_append_cons_of_mem hmem
        have hstdin : stdin = text ++ newline :: (rest ++ stdin.drop (CMD_LEN - 1)) := by
          rw [← List.cons_append, ← List.append_assoc, ← heq, List.take_append_drop]
        have hlength := congrArg List.length heq
        rw [List.length_append, List.length_cons] at hlength
        have htake := List.length_take_le (CMD_LEN - 1) stdin
        have hwhole := congrArg List.length hstdin
        rw [List.length_append, List.length_cons] at hwhole
        rw [hstdin]
        exact reads_ended_iff tokenize after fuel cmd htext (by omega)
          fun cmd' => ih cmd' _ (by omega)
      · exact reads_unended_iff tokenize after fuel cmd hempty hmem

/-- For every input: `main` reads it line by line exactly when every line it gets to ends with a
newline, fits in the array with it, and has no `NUL`. -/
theorem main_reads_iff (tokenize : Bytes → Option Tokens) (after : Cmd → Cmd) (cmd : Cmd)
    (stdin : Bytes) : Reads (lines stdin) (main tokenize after cmd stdin).rounds ↔
      ∀ line ∈ reached tokenize (lines stdin), Fits line :=
  mainLoop_reads_iff tokenize after stdin.length cmd stdin (Nat.le_refl _)

def blank : Cmd where
  bytes := List.replicate CMD_LEN 0
  size := List.length_replicate

/-- The word `ls` at the end of the input, without a newline: the scan leaves the array. -/
theorem main_unended : ¬ Reads (lines [108, 115])
    (main (fun _ => some ["ls"]) id blank [108, 115]).rounds := by
  intro hreads
  obtain ⟨round, more, hrounds, hpast⟩ :=
    mainLoop_unended (fun _ => some ["ls"]) id 1 blank (List.cons_ne_nil 108 [115])
      (show newline ∉ [108, 115] by decide)
  exact not_reads_of_past hpast (hrounds ▸ hreads)

end UmnProjects.Swish.CommandLines
