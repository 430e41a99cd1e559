import Externals.Files.Publish

/-!
# `Externals.Proofs.Files.Accounting`: what publishing asks for and what it reports

Three things can fail for a generated file: it is written, shown to the
formatter, copied to the mirror. Here nothing is assumed about the host. Its
state is of any type, and each answer is any function of that state, so a
call may succeed or fail depending on all that was done before.

To speak about the calls themselves, a host is made to keep a record of
them, each with its answer (`Host.recording`). The record changes neither
what publishing returns nor the state that it leaves.

* `Destination.Serves`: the calls that deliver one file. A write comes first.
  Nothing follows one that failed; the formatter and the mirror, if there are
  such, follow one that succeeded, and the mirror does not depend on what the
  formatter answered.
* `Host.recorded_publish`: publishing makes these calls for every file, in
  order.
* `Host.publish_accounts`: the summary is that of the calls that were made.
-/

set_option autoImplicit false

namespace Externals

/-- A call that publishing makes to its host, with the answer. Calls
that only look at files are not among them. -/
inductive Call where
  | write (path text : String) (answer : Except FileError Unit)
  | format (f : Formatter) (path : String) (answer : Except String Unit)
  | copy (source target : String) (answer : Except FileError Unit)

namespace Call

/-- Path and text of a call that writes, whatever the answer. -/
def writing? : Call → Option (String × String)
  | write path text _ => some (path, text)
  | _ => none

/-- The error of a write that failed. It names the path that was to be
written. -/
def writeError? : Call → Option OutputError
  | write path _ (.error cause) => some (.write path cause)
  | _ => none

/-- The call wrote a file. -/
def isWritten : Call → Bool
  | write _ _ (.ok _) => true
  | _ => false

/-- The call had a file formatted. -/
def isFormatted : Call → Bool
  | format _ _ (.ok _) => true
  | _ => false

/-- The call copied a file. -/
def isCopied : Call → Bool
  | copy _ _ (.ok _) => true
  | _ => false

/-- Each write succeeded or has an error, so the two together are as
many as the writes. -/
theorem countP_isWritten_add (calls : List Call) :
    calls.countP isWritten + (calls.filterMap writeError?).length
      = (calls.filterMap writing?).length := by
  induction calls with
  | nil => rfl
  | cons call calls ih =>
      rcases call with ⟨_, _, _ | _⟩ | _ | _ <;>
        simp only [List.countP_cons, List.filterMap_cons, isWritten, writeError?, writing?,
          List.length_cons, Bool.false_eq_true, if_false, if_true] <;> omega

/-- There is no error exactly if every write succeeded. -/
theorem filterMap_writeError?_eq_nil_iff (calls : List Call) :
    calls.filterMap writeError? = []
      ↔ ∀ path text answer, .write path text answer ∈ calls → answer.isOk = true := by
  rw [List.filterMap_eq_nil_iff]
  constructor
  · intro h path text answer hmem
    have hnone := h _ hmem
    cases answer with
    | ok _ => rfl
    | error cause => cases hnone
  -- Only a write that failed leaves an error behind; moving and looking leave none.
  · intro h call hmem
    rcases call with ⟨path, text, cause | _⟩ | _ | _
    · exact absurd (h path text _ hmem) Bool.false_ne_true
    all_goals rfl

end Call

namespace Summary

/-- The outcome that calls amount to: how many of each kind succeeded,
and the errors of writes in their order. -/
def ofCalls (calls : List Call) : Summary where
  written := calls.countP Call.isWritten
  formatted := calls.countP Call.isFormatted
  mirrored := calls.countP Call.isCopied
  failures := calls.filterMap Call.writeError?

/-- Two outcomes, one after the other. -/
def followedBy (s t : Summary) : Summary where
  written := s.written + t.written
  formatted := s.formatted + t.formatted
  mirrored := s.mirrored + t.mirrored
  failures := s.failures ++ t.failures

/-- The outcome of two lists of calls, from those of the two. -/
theorem ofCalls_append (as bs : List Call) :
    ofCalls (as ++ bs) = (ofCalls as).followedBy (ofCalls bs) := by
  simp only [ofCalls, followedBy, List.countP_append, List.filterMap_append]

/-- The same for deliveries, so both outcomes can be compared file by
file. -/
theorem ofDeliveries_append (as bs : List Delivery) :
    ofDeliveries (as ++ bs) = (ofDeliveries as).followedBy (ofDeliveries bs) := by
  simp only [ofDeliveries, followedBy, List.countP_append, List.filterMap_append]

end Summary

/-! ### The calls for one file -/

/-- The calls that deliver one file, with what is noted about it. -/
inductive Destination.Serves (d : Destination) (u : OutputUnit) : List Call → Delivery → Prop
  /-- The file could not be written, and nothing else is tried. -/
  | refused (cause : FileError) :
      Serves d u [.write (d.target u) u.text (.error cause)]
        { target := d.target u, write := .error (.write (d.target u) cause) }
  /-- The file was written. A formatter sees it, if there is one, and then
  it is copied, if there is a mirror. Either may succeed or fail. -/
  | written (formatted : Except String Unit) (copied : Except FileError Unit) :
      Serves d u
        (.write (d.target u) u.text (.ok ())
          :: ((d.formatter.map fun f => .format f (d.target u) formatted).toList
            ++ (d.mirrorDir.map fun dir =>
                .copy (d.target u) (joinPath dir u.path) copied).toList))
        { target := d.target u
          write := .ok ()
          format := d.formatter.map fun _ => formatted.mapError (.format (d.target u))
          mirror := d.mirrorDir.map fun dir => copied.mapError (.mirror (joinPath dir u.path)) }

namespace Destination.Serves

variable {d : Destination} {u : OutputUnit} {calls : List Call} {r : Delivery}

/-- One write is made, of the text of the file to its path. -/
theorem filterMap_writing? (h : d.Serves u calls r) :
    calls.filterMap Call.writing? = [(d.target u, u.text)] := by
  cases h with
  | refused cause => rfl
  | written formatted copied => cases d.formatter <;> cases d.mirrorDir <;> rfl

/-- What is noted about a file is what its calls amount to. -/
theorem ofDeliveries_eq (h : d.Serves u calls r) :
    Summary.ofDeliveries [r] = Summary.ofCalls calls := by
  cases h with
  | refused cause => rfl
  | written formatted copied =>
      cases d.formatter <;> cases d.mirrorDir <;> cases formatted <;> cases copied <;> rfl

end Destination.Serves

/-- The calls and the deliveries of files, one file after the other.
What happened to one file does not change which calls are made for the
next. -/
inductive Destination.ServesAll (d : Destination) :
    List OutputUnit → List Call → List Delivery → Prop
  | nil : ServesAll d [] [] []
  | cons {u : OutputUnit} {us : List OutputUnit} {calls more : List Call} {r : Delivery}
      {rs : List Delivery} :
      d.Serves u calls r → ServesAll d us more rs → ServesAll d (u :: us) (calls ++ more) (r :: rs)

namespace Destination.ServesAll

variable {d : Destination} {us : List OutputUnit} {calls : List Call} {rs : List Delivery}

/-- Every file is written once, in order. -/
theorem filterMap_writing? (h : d.ServesAll us calls rs) :
    calls.filterMap Call.writing? = us.map fun u => (d.target u, u.text) := by
  induction h with
  | nil => rfl
  | cons hfirst _ ih =>
      rw [List.filterMap_append, hfirst.filterMap_writing?, ih]
      rfl

/-- The deliveries of all files amount to what their calls amount to. -/
theorem ofDeliveries_eq (h : d.ServesAll us calls rs) :
    Summary.ofDeliveries rs = Summary.ofCalls calls := by
  induction h with
  | nil => rfl
  | cons hfirst _ ih =>
      rw [Summary.ofCalls_append, ← hfirst.ofDeliveries_eq, ← ih, ← Summary.ofDeliveries_append]
      rfl

end Destination.ServesAll

/-! ### Keeping a record -/

namespace Host

section

variable {m : Type → Type} [Monad m]

/-- Make a call and put it, with its answer, behind the calls before
it. -/
def record {α : Type} (call : α → Call) (x : m α) : StateT (List Call) m α := fun calls => do
  let answer ← x
  return (answer, calls ++ [call answer])

/-- The same host, with a record of the calls that change something. -/
def recording (h : Host m) : Host (StateT (List Call) m) where
  read path := StateT.lift (h.read path)
  write path text := record (.write path text) (h.write path text)
  copy source target := record (.copy source target) (h.copy source target)
  format f path := record (.format f path) (h.format f path)
  isDir path := StateT.lift (h.isDir path)
  isFile path := StateT.lift (h.isFile path)
  names path := StateT.lift (h.names path)

end

variable {σ α β : Type}

/-- A computation `x`, and `y` that does the same and keeps a record,
both run from one state: they end with the same value in the same state,
and the calls come behind those recorded before. -/
structure Recorded (x : StateM σ α) (y : StateT (List Call) (StateM σ) α) (s : σ)
    (calls : List Call) (a : α) (t : σ) : Prop where
  run : x.run s = (a, t)
  run_record : ∀ before, (y.run before).run s = ((a, before ++ calls), t)

namespace Recorded

/-- A value needs no call. -/
theorem pure (a : α) (s : σ) : Recorded (Pure.pure a) (Pure.pure a) s [] a s where
  run := rfl
  run_record before := by
    rw [List.append_nil]
    rfl

/-- The calls of two computations in sequence come one after the other.
The second one starts from the state and the value that the first one
leaves. -/
theorem bind {x : StateM σ α} {y : StateT (List Call) (StateM σ) α} {f : α → StateM σ β}
    {g : α → StateT (List Call) (StateM σ) β} {s t v : σ} {calls more : List Call} {a : α} {b : β}
    (hx : Recorded x y s calls a t) (hf : Recorded (f a) (g a) t more b v) :
    Recorded (x >>= f) (y >>= g) s (calls ++ more) b v where
  run := by
    rw [StateT.run_bind, hx.run]
    exact hf.run
  run_record before := by
    rw [StateT.run_bind, StateT.run_bind, hx.run_record, ← List.append_assoc]
    exact hf.run_record _

end Recorded

/-- A single call, where what comes next only says which error its error
becomes. -/
theorem recorded_call {ε : Type} (x : StateM σ (Except ε Unit)) (call : Except ε Unit → Call)
    (wrap : ε → OutputError) {f : Except ε Unit → StateM σ (Except OutputError Unit)}
    {g : Except ε Unit → StateT (List Call) (StateM σ) (Except OutputError Unit)}
    (hf : ∀ answer, f answer = Pure.pure (answer.mapError wrap))
    (hg : ∀ answer, g answer = Pure.pure (answer.mapError wrap)) (s : σ) :
    ∃ answer t, Recorded (x >>= f) (record call x >>= g) s [call answer]
      (answer.mapError wrap) t := by
  -- The answer is whatever the host gives in this state.
  have hcall : Recorded x (record call x) s [call (x.run s).1] (x.run s).1 (x.run s).2 :=
    ⟨rfl, fun _ => rfl⟩
  refine ⟨(x.run s).1, (x.run s).2, hcall.bind ?_⟩
  rw [hf, hg]
  exact .pure _ _

variable (h : Host (StateM σ))

/-- Writing a file is one call, and its error names the file. -/
theorem recorded_writeUnit (path text : String) (s : σ) :
    ∃ answer t, Recorded (h.writeUnit path text) (h.recording.writeUnit path text) s
      [.write path text answer] (answer.mapError (.write path)) t :=
  recorded_call (h.write path text) (.write path text) (.write path)
    (by rintro (_ | _) <;> rfl) (by rintro (_ | _) <;> rfl) s

/-- Formatting a file is one call. -/
theorem recorded_formatUnit (f : Formatter) (path : String) (s : σ) :
    ∃ answer t, Recorded (h.formatUnit f path) (h.recording.formatUnit f path) s
      [.format f path answer] (answer.mapError (.format path)) t :=
  recorded_call (h.format f path) (.format f path) (.format path)
    (by rintro (_ | _) <;> rfl) (by rintro (_ | _) <;> rfl) s

/-- Mirroring a file is one call. Its error names the copy, not the
file. -/
theorem recorded_mirrorUnit (source target : String) (s : σ) :
    ∃ answer t, Recorded (h.mirrorUnit source target) (h.recording.mirrorUnit source target) s
      [.copy source target answer] (answer.mapError (.mirror target)) t :=
  recorded_call (h.copy source target) (.copy source target) (.mirror target)
    (by rintro (_ | _) <;> rfl) (by rintro (_ | _) <;> rfl) s

/-- One file is served, whatever the host answers. The four cases are
those of a destination with or without a formatter and a mirror. -/
theorem recorded_deliver (d : Destination) (u : OutputUnit) (s : σ) :
    ∃ calls r t, Recorded (h.deliver d u) (h.recording.deliver d u) s calls r t
      ∧ d.Serves u calls r := by
  obtain ⟨written, s₁, hwrite⟩ := h.recorded_writeUnit (d.target u) u.text s
  cases written with
  | error cause => exact ⟨_, _, _, hwrite.bind (.pure _ s₁), .refused cause⟩
  | ok _ =>
      have hformat := fun f => h.recorded_formatUnit f (d.target u) s₁
      have hmirror := fun dir t => h.recorded_mirrorUnit (d.target u) (joinPath dir u.path) t
      -- A step that is not set up makes no call, and any answer stands for the one it did not get.
      obtain ⟨outDir, mirrorDir, formatter⟩ := d
      cases formatter with
      | none =>
          have hskip := Recorded.pure (none : Option (Except OutputError Unit)) s₁
          cases mirrorDir with
          | none =>
              refine ⟨_, _, s₁, hwrite.bind (hskip.bind ?_), .written (.ok ()) (.ok ())⟩
              exact hskip.bind (.pure _ s₁)
          | some dir =>
              obtain ⟨copied, s₂, hcopy⟩ := hmirror dir s₁
              refine ⟨_, _, s₂, hwrite.bind (hskip.bind (hcopy.bind ?_)), .written (.ok ()) copied⟩
              exact .bind (.pure _ s₂) (.pure _ s₂)
      | some f =>
          obtain ⟨formatted, s₂, hformatted⟩ := hformat f
          cases mirrorDir with
          | none =>
              refine ⟨_, _, s₂, hwrite.bind (hformatted.bind ?_), .written formatted (.ok ())⟩
              exact .bind (.pure _ s₂) (.bind (.pure _ s₂) (.pure _ s₂))
          | some dir =>
              obtain ⟨copied, s₃, hcopy⟩ := hmirror dir s₂
              refine ⟨_, _, s₃, hwrite.bind (hformatted.bind ?_), .written formatted copied⟩
              exact .bind (.pure _ s₂) (hcopy.bind (.bind (.pure _ s₃) (.pure _ s₃)))

/-- All files are served, in order. The next file is delivered from the
state that the last one left. -/
theorem recorded_publish (d : Destination) (us : List OutputUnit) (s : σ) :
    ∃ calls rs t, Recorded (h.publish d us) (h.recording.publish d us) s calls rs t
      ∧ d.ServesAll us calls rs := by
  induction us generalizing s with
  | nil => exact ⟨[], [], s, .pure _ s, .nil⟩
  | cons u us ih =>
      obtain ⟨calls, r, t, hfirst, hserves⟩ := h.recorded_deliver d u s
      obtain ⟨more, rs, v, hrest, hall⟩ := ih t
      refine ⟨calls ++ more, r :: rs, v, hfirst.bind ?_, .cons hserves hall⟩
      -- Putting the deliveries together makes no call.
      exact List.append_nil more ▸ hrest.bind (.pure _ v)

/-- What publishing does and reports, for every host. Every file is served
in order: written first, and shown to the formatter and copied to the mirror
exactly if the write succeeded and there is a formatter or a mirror. The
summary counts the steps that succeeded and holds the errors of the writes
that failed, in order, and each file is either written or among these. It is
a success exactly if every write succeeded. The calls are those of the run
itself: with the record it comes to the same deliveries and the same state. -/
theorem publish_accounts (d : Destination) (us : List OutputUnit) (s : σ) :
    ∃ calls deliveries t,
      (h.publish d us).run s = (deliveries, t)
        ∧ ((h.recording.publish d us).run []).run s = ((deliveries, calls), t)
        ∧ d.ServesAll us calls deliveries
        ∧ calls.filterMap Call.writing? = us.map (fun u => (d.target u, u.text))
        ∧ Summary.ofDeliveries deliveries = Summary.ofCalls calls
        ∧ (Summary.ofDeliveries deliveries).written
            + (Summary.ofDeliveries deliveries).failures.length = us.length
        ∧ ((Summary.ofDeliveries deliveries).isSuccess = true
            ↔ ∀ path text answer, .write path text answer ∈ calls → answer.isOk = true) := by
  obtain ⟨calls, deliveries, t, hrecorded, hall⟩ := h.recorded_publish d us s
  have hwriting := hall.filterMap_writing?
  have hsummary := hall.ofDeliveries_eq
  refine ⟨calls, deliveries, t, hrecorded.run, hrecorded.run_record [], hall, hwriting, hsummary,
    ?_, ?_⟩
  · -- There are as many writes as files, and each of them is counted or has its error.
    rw [hsummary]
    have hsplit := Call.countP_isWritten_add calls
    rw [hwriting, List.length_map] at hsplit
    exact hsplit
  · rw [hsummary, ← Call.filterMap_writeError?_eq_nil_iff]
    exact List.isEmpty_iff

end Host

end Externals
