import CoalescingQueue.Console.Program
import CoalescingQueue.Proofs.Encoding
import CoalescingQueue.Proofs.Fates
import CoalescingQueue.Proofs.Feeding

/-!
# What a session submits

However the input is cut into pieces and whatever time passes between them, a session that is not
cancelled reads the lines of the whole input. At each moment what it has read so far is submitted or
pending; it goes on as long as its call is decided, so when it stops while the clock stands still,
all is submitted or the call waits for a run to end. After the end of the input each jump of the
clock takes it at least one request further, until everything is submitted.
-/
namespace CoalescingQueue.Console

open Queue
open Text (Utf8Fault)

variable {s : Simulation} {f : Foreground} {fed rs : List Request} {fault : Option Utf8Fault}

/-- The bytes that an arrival brings. -/
def Arrival.piece : Arrival → List UInt8
  | .bytes piece => piece
  | _ => []

/-- The whole input. -/
def input (arrivals : List Arrival) : List UInt8 := arrivals.flatMap Arrival.piece

/-- The requests on lines that are texts: one for each line that is not blank. -/
def requestsOn (lines : List (List Char)) : List Request :=
  ((lines.map Text.trim).filter (!·.isEmpty)).map fun id => ⟨String.ofList id⟩

/-! ## Lines -/

theorem requestsOfLines_cons_of_ok {line : List UInt8} {request : Option Request}
    (h : requestOfLine line = .ok request) (rest : List (List UInt8)) :
    requestsOfLines (line :: rest) =
      (request.toList ++ (requestsOfLines rest).1, (requestsOfLines rest).2) := by
  rw [requestsOfLines, h]

theorem requestsOfLines_cons_of_error {line : List UInt8} {fault : Utf8Fault}
    (h : requestOfLine line = .error fault) (rest : List (List UInt8)) :
    requestsOfLines (line :: rest) = ([], some fault) := by
  rw [requestsOfLines, h]

theorem requestsOfLines_append {lines : List (List UInt8)} (h : (requestsOfLines lines).2 = none)
    (more : List (List UInt8)) : requestsOfLines (lines ++ more) =
      ((requestsOfLines lines).1 ++ (requestsOfLines more).1, (requestsOfLines more).2) := by
  induction lines with
  | nil => rfl
  | cons line lines ih =>
    rw [List.cons_append]
    cases hline : requestOfLine line with
    | error fault =>
      rw [requestsOfLines_cons_of_error hline] at h
      contradiction
    | ok request =>
      rw [requestsOfLines_cons_of_ok hline] at h ⊢
      rw [requestsOfLines_cons_of_ok hline, ih h, List.append_assoc]

/-- Nothing counts after a line that is no text. -/
theorem requestsOfLines_append_of_some {lines : List (List UInt8)} {fault : Utf8Fault}
    (h : (requestsOfLines lines).2 = some fault) (more : List (List UInt8)) :
    requestsOfLines (lines ++ more) = requestsOfLines lines := by
  induction lines with
  | nil => contradiction
  | cons line lines ih =>
    rw [List.cons_append]
    cases hline : requestOfLine line with
    | error fault =>
      rw [requestsOfLines_cons_of_error hline, requestsOfLines_cons_of_error hline]
    | ok request =>
      rw [requestsOfLines_cons_of_ok hline] at h ⊢
      rw [requestsOfLines_cons_of_ok hline, ih h]

theorem requestsOfLines_encode (lines : List (List Char)) :
    requestsOfLines (lines.map Text.encode) = (requestsOn lines, none) := by
  induction lines with
  | nil => rfl
  | cons line lines ih =>
    have hline : requestOfLine (Text.encode line) = .ok
        (if (Text.trim line).isEmpty then none else some ⟨String.ofList (Text.trim line)⟩) := by
      rw [requestOfLine, Text.decode_eq_ok_iff.mpr rfl]
    rw [List.map_cons, requestsOfLines_cons_of_ok hline, ih]
    unfold requestsOn
    rw [List.map_cons]
    cases hblank : (Text.trim line).isEmpty with
    | true => rw [if_pos rfl, List.filter_cons_of_neg (by simp [hblank]), Option.toList_none,
        List.nil_append]
    | false => rw [if_neg Bool.false_ne_true, List.filter_cons_of_pos (by simp [hblank]),
        List.map_cons, Option.toList_some, List.singleton_append]

/-- What is read up to a line that is no text. -/
theorem requestsOfLines_of_unreadable (lines : List (List Char)) {line : List UInt8}
    (hline : ¬ line.toByteArray.IsValidUTF8) (rest : List (List UInt8)) :
    ∃ fault, requestsOfLines (lines.map Text.encode ++ line :: rest) =
      (requestsOn lines, some fault) := by
  obtain ⟨fault, hbad⟩ : ∃ fault, requestOfLine line = .error fault := by
    rw [Text.isValidUTF8_iff] at hline
    unfold requestOfLine
    cases hdecode : Text.decode line with
    | error fault => exact ⟨fault, rfl⟩
    | ok cs => exact absurd ⟨cs, hdecode⟩ hline
  have hall := requestsOfLines_encode lines
  refine ⟨fault, ?_⟩
  rw [requestsOfLines_append (by rw [hall]), hall, requestsOfLines_cons_of_error hbad,
    List.append_nil]

/-- An empty line counts for nothing. -/
theorem requestsOfLines_concat_nil (lines : List (List UInt8)) :
    requestsOfLines (lines ++ [[]]) = requestsOfLines lines := by
  cases h : (requestsOfLines lines).2 with
  | none =>
    rw [requestsOfLines_append h]
    show ((requestsOfLines lines).1 ++ [], none) = _
    rw [List.append_nil, ← h]
  | some fault => exact requestsOfLines_append_of_some h _

/-! ## What is read is submitted or pending -/

namespace Session

/-- A session that has read these requests, and this fault after them. -/
structure Keeps (s : Simulation) (rs : List Request) (fault : Option Utf8Fault) (t : Session) :
    Prop where
  exists_fed : ∃ fed, t.queue.Fed s fed fed ∧ fed ++ t.pending = rs
  /-- The call that waits is the only one. -/
  tickets_eq : t.queue.mailbox.tickets = t.ticket.toList
  fault_eq : t.fault = fault
  ended_eq : t.ended = none ∨ t.ended = fault.map .unreadable ∧ t.pending = [] ∧ t.ticket = none

/-- Everything that was read is submitted. -/
structure Through (fault : Option Utf8Fault) (t : Session) : Prop where
  pending_eq : t.pending = []
  ticket_eq : t.ticket = none
  ended_eq : t.ended = fault.map .unreadable

/-- The call that waits cannot be decided while the clock stands still. -/
structure Stalls (s : Simulation) (t : Session) : Prop where
  atRest : t.queue.AtRest s.work
  hasSlot_eq : ∀ w ∈ t.queue.mailbox.waiting, w.hasSlot = false
  isSome : t.ticket.isSome = true

variable {t t' : Session}

/-- What only the input changes. -/
def aside (t : Session) : List UInt8 × Bool := (t.unfinished, t.isComplete)

theorem aside_after (s : Simulation) (t : Session) (p : Progress) :
    (t.after s.work p).aside = t.aside := by
  cases p <;> rfl

theorem aside_pump (s : Simulation) (t : Session) : (t.pump s.work).aside = t.aside := by
  unfold pump
  dsimp only
  split
  · rfl
  · exact aside_after s _ _
  · split
    · rfl
    · exact aside_after s _ _

theorem aside_pumpAll (s : Simulation) (t : Session) (n : Nat) :
    (t.pumpAll s.work n).aside = t.aside := by
  induction n generalizing t with
  | zero => rfl
  | succ n ih =>
    rw [pumpAll]
    split
    · exact (ih _).trans (aside_pump s t)
    · exact aside_pump s t

theorem aside_read (t : Session) (lines : List (List UInt8)) : (t.read lines).aside = t.aside := by
  unfold read
  split <;> rfl

/-- How far a session comes by itself while the clock stands still. What is left when it stalls is
less than it was, unless something was buffered before. -/
inductive Settles (s : Simulation) (fault : Option Utf8Fault) (t t' : Session) : Prop
  | through (h : t'.Through fault) (hr : t.isComplete = false → t'.queue.AtRest s.work)
  | stalls (h : t'.Stalls s) (hle : t'.pending.length ≤ t.pending.length)
      (hlt : t.queue.mailbox.buffer = [] → t'.pending.length < t.pending.length)

/-- How far it comes by one pump. -/
inductive Pumps (s : Simulation) (fault : Option Utf8Fault) (t t' : Session) : Prop
  | through (h : t'.Through fault) (hr : t.isComplete = false → t'.queue.AtRest s.work)
  | stalls (h : t'.Stalls s) (hpending : t'.pending = t.pending)
      (hbuffer : t.queue.mailbox.buffer ≠ [])
  | waits (hr : t'.queue.AtRest s.work) (hsome : t'.ticket.isSome = true)
      (hlt : t'.pending.length < t.pending.length)

section Keeps

variable (h : t.Keeps s rs fault)
include h

theorem Keeps.exists_waiter {ticket : Nat} (ht : t.ticket = some ticket) :
    ∃ w, t.queue.mailbox.waiting = [w] ∧ w.ticket = ticket := by
  have htickets := h.tickets_eq
  rw [ht] at htickets
  exact List.map_eq_singleton_iff.mp htickets

theorem Keeps.waiting_eq_nil (ht : t.ticket = none) : t.queue.mailbox.waiting = [] := by
  have htickets := h.tickets_eq
  rw [ht] at htickets
  exact List.map_eq_nil_iff.mp htickets

/-- What happens by itself is of no consequence. -/
theorem Keeps.of_drifts {f : Foreground} (hd : Drifts s t.queue f.queue) (hs : f.queue.Steered s) :
    ({ t with foreground := f }).Keeps s rs fault := by
  obtain ⟨⟨fed, hfed, hrs⟩, htickets, hfault, hended⟩ := h
  refine ⟨⟨fed, hfed.of_drifts hd hs, hrs⟩, ?_, hfault, hended⟩
  have hcalls := congrArg (List.map Waiter.ticket) (hd.undisturbed hfed.toTended).calls_eq
  rw [Mailbox.calls, Mailbox.calls, List.map_map, List.map_map] at hcalls
  exact hcalls.trans htickets

theorem Keeps.relent : ({ t with foreground := t.foreground.relent s.work }).Keeps s rs fault ∧
    (t.foreground.relent s.work).queue.AtRest s.work := by
  obtain ⟨fed, hfed, -⟩ := h.exists_fed
  exact ⟨h.of_drifts (drifts_settle s t.queue) hfed.toTended.steered_settle,
    hfed.toTended.settle.2⟩

end Keeps

/-- Offering what is pending takes a session through, or leaves less. -/
theorem pumps_after {p : Progress} (hp : Serves s fed t.pending p) (hrs : fed ++ t.pending = rs)
    (hfault : t.fault = fault) (hended : t.ended = none) :
    (t.after s.work p).Keeps s rs fault ∧ Pumps s fault t (t.after s.work p) := by
  cases hp with
  | @through f hf hw =>
    obtain ⟨hrested, hr⟩ := Foreground.fed_relent hf
    have hnobody : (f.relent s.work).queue.mailbox.waiting = [] :=
      (drifts_settle s f.queue).waiting_eq_nil hf.toTended hw
    have hends : (t.after s.work (.through f)).ended = fault.map .unreadable := by
      rw [← hfault]
      rfl
    refine ⟨⟨⟨fed ++ t.pending, ?_, ?_⟩, ?_, hfault, .inr ⟨hends, rfl, rfl⟩⟩,
      .through ⟨rfl, rfl, hends⟩ fun hopen => ?_⟩
    · show (if t.isComplete then f else f.relent s.work).queue.Fed s _ _
      split
      · exact hf
      · exact hrested
    · show fed ++ t.pending ++ [] = rs
      rw [List.append_nil, hrs]
    · show (if t.isComplete then f else f.relent s.work).queue.mailbox.waiting.map _ = []
      split
      · rw [hw, List.map_nil]
      · rw [hnobody, List.map_nil]
    · show (if t.isComplete then f else f.relent s.work).queue.AtRest s.work
      rw [if_neg (by simp [hopen])]
      exact hr
  | @waits f w done rest htodo hlt hf hw =>
    obtain ⟨hrested, hr⟩ := Foreground.fed_relent hf
    obtain ⟨v, hv, hticket⟩ := (drifts_settle s f.queue).exists_waiting hf.toTended hw
    refine ⟨⟨⟨fed ++ done, hrested, ?_⟩, ?_, hfault, .inl hended⟩, .waits hr rfl hlt⟩
    · show fed ++ done ++ rest = rs
      rw [List.append_assoc, ← htodo, hrs]
    · show (f.queue.settle s.work).mailbox.waiting.map _ = [w.ticket]
      rw [hv, List.map_singleton, hticket]

theorem Pumps.of_relent (h : t.Keeps s rs fault)
    (hp : Pumps s fault { t with foreground := t.foreground.relent s.work } t') :
    Pumps s fault t t' := by
  obtain ⟨fed, hfed, -⟩ := h.exists_fed
  cases hp with
  | through hthrough hr => exact .through hthrough hr
  | stalls hstalls hpending hbuffer =>
    exact .stalls hstalls hpending fun hempty =>
      hbuffer ((drifts_settle s t.queue).buffer_eq_nil hfed.toTended hempty)
  | waits hr hsome hlt => exact .waits hr hsome hlt

/-- A call that has no slot while everything is at rest is not decided. -/
theorem pumps_of_undecided (h : t.Keeps s rs fault) (hr : t.queue.AtRest s.work) {w : Waiter}
    (hw : t.queue.mailbox.waiting = [w]) (hticket : t.ticket = some w.ticket)
    (hslot : w.hasSlot = false) :
    (t.after s.work (.waits t.foreground w.ticket t.pending)).Keeps s rs fault ∧
      Pumps s fault t (t.after s.work (.waits t.foreground w.ticket t.pending)) := by
  obtain ⟨fed, hfed, hrs⟩ := h.exists_fed
  have hsame : (t.after s.work (.waits t.foreground w.ticket t.pending)).queue = t.queue :=
    settle_of_atRest hr
  have hmore : t.queue.mailbox.buffer ≠ [] := fun hempty => by
    rw [hfed.hasSlot_eq hw hempty] at hslot
    contradiction
  refine ⟨⟨⟨fed, hsame ▸ hfed, hrs⟩, ?_, h.fault_eq, ?_⟩, .stalls ⟨hsame ▸ hr, ?_, rfl⟩ rfl hmore⟩
  · rw [hsame, h.tickets_eq, hticket]
    rfl
  · refine h.ended_eq.imp_right fun hended => absurd hended.2.2 ?_
    rw [hticket]
    nofun
  · rw [hsame, hw]
    exact List.forall_mem_singleton.mpr hslot

theorem pumps_pump (h : t.Keeps s rs fault) :
    (t.pump s.work).Keeps s rs fault ∧ Pumps s fault t (t.pump s.work) := by
  obtain ⟨hkeeps, hr⟩ := h.relent
  obtain ⟨fed, hfed, hrs⟩ := hkeeps.exists_fed
  have hback {t' : Session} (hp : t'.Keeps s rs fault ∧
      Pumps s fault { t with foreground := t.foreground.relent s.work } t') :
      t'.Keeps s rs fault ∧ Pumps s fault t t' := ⟨hp.1, hp.2.of_relent h⟩
  unfold pump
  dsimp only
  split
  · next hended =>
    refine ⟨hkeeps, ?_⟩
    rcases h.ended_eq with hgoing | ⟨hends, hpending, hticket⟩
    · rw [hgoing] at hended
      contradiction
    · exact .through ⟨hpending, hticket, hends⟩ fun _ => hr
  · next ticket hended hticket =>
    obtain ⟨w, hw, rfl⟩ := hkeeps.exists_waiter hticket
    refine hback ?_
    cases hslot : w.hasSlot with
    | true => exact pumps_after (Foreground.serves_resume hfed hw hslot _) hrs h.fault_eq hended
    | false =>
      unfold Foreground.resume
      rw [Foreground.decide?_of_waiting hfed hw, hslot]
      exact pumps_of_undecided hkeeps hr hw hticket hslot
  · next hended hticket =>
    have hgoing : (t.foreground.relent s.work).queue.isCancelled = false := hfed.going
    rw [if_neg (by rw [hgoing]; exact Bool.false_ne_true)]
    exact hback (pumps_after (Foreground.serves_feed hfed (hkeeps.waiting_eq_nil hticket) _) hrs
      h.fault_eq hended)

theorem any_decided (h : t.Keeps s rs fault) {w : Waiter} (hw : t.queue.mailbox.waiting = [w])
    (hticket : t.ticket = some w.ticket) :
    (t.ticket.any fun ticket => (t.foreground.decide? ticket).isSome) = w.hasSlot := by
  obtain ⟨fed, hfed, -⟩ := h.exists_fed
  rw [hticket, Option.any_some, Foreground.decide?_of_waiting hfed hw]
  cases w.hasSlot <;> rfl

/-- Pumping goes on until nothing can be decided. -/
theorem settles_pumpAll {n : Nat} (h : t.Keeps s rs fault) (hn : t.pending.length < n) :
    (t.pumpAll s.work n).Keeps s rs fault ∧ Settles s fault t (t.pumpAll s.work n) := by
  induction n generalizing t with
  | zero => exact absurd hn (Nat.not_lt_zero _)
  | succ n ih =>
    obtain ⟨hkeeps, hpumps⟩ := pumps_pump h
    have hsame := congrArg Prod.snd (aside_pump s t)
    rw [pumpAll]
    generalize t.pump s.work = t' at hkeeps hpumps hsame
    have hwaits (hsome : t'.ticket.isSome = true) :
        ∃ w, t'.queue.mailbox.waiting = [w] ∧ t'.ticket = some w.ticket := by
      obtain ⟨ticket, hticket⟩ := Option.isSome_iff_exists.mp hsome
      obtain ⟨w, hw, rfl⟩ := hkeeps.exists_waiter hticket
      exact ⟨w, hw, hticket⟩
    cases hpumps with
    | through hthrough hr =>
      rw [hthrough.ticket_eq]
      exact ⟨hkeeps, .through hthrough hr⟩
    | stalls hstalls hpending hbuffer =>
      obtain ⟨w, hw, hticket⟩ := hwaits hstalls.isSome
      have hslot := hstalls.hasSlot_eq w (hw ▸ List.mem_singleton_self w)
      rw [any_decided hkeeps hw hticket, hslot]
      exact ⟨hkeeps, .stalls hstalls (congrArg List.length hpending).le
        fun hempty => absurd hempty hbuffer⟩
    | waits hr hsome hlt =>
      obtain ⟨w, hw, hticket⟩ := hwaits hsome
      rw [any_decided hkeeps hw hticket]
      cases hslot : w.hasSlot with
      | true =>
        obtain ⟨hkeeps', hsettles⟩ := ih hkeeps (by omega)
        refine ⟨hkeeps', ?_⟩
        cases hsettles with
        | through hthrough hr => exact .through hthrough fun hopen => hr (hsame.trans hopen)
        | stalls hstalls hle => exact .stalls hstalls (hle.trans hlt.le) fun _ => hle.trans_lt hlt
      | false =>
        have hundecided : ∀ w ∈ t'.queue.mailbox.waiting, w.hasSlot = false := by
          rw [hw]
          exact List.forall_mem_singleton.mpr hslot
        exact ⟨hkeeps, .stalls ⟨hr, hundecided, hsome⟩ hlt.le fun _ => hlt⟩

theorem settles_settle (h : t.Keeps s rs fault) :
    (t.settle s.work).Keeps s rs fault ∧ Settles s fault t (t.settle s.work) :=
  settles_pumpAll h (Nat.lt_add_of_pos_right Nat.two_pos)

/-! ## The end of the input -/

/-- The run that a call waits for has ended after the jump, so the call is decided then. -/
theorem keeps_jump (h : t.Keeps s rs fault) (hstalls : t.Stalls s) :
    ({ t with foreground := t.foreground.jump s.work }).Keeps s rs fault ∧
      (t.foreground.jump s.work).queue.mailbox.buffer = [] := by
  obtain ⟨fed, hfed, -⟩ := h.exists_fed
  obtain ⟨ticket, hticket⟩ := Option.isSome_iff_exists.mp hstalls.isSome
  obtain ⟨w, hw, -⟩ := h.exists_waiter hticket
  have hmore : t.queue.mailbox.buffer ≠ [] := fun hempty => by
    have hslot := hstalls.hasSlot_eq w (hw ▸ List.mem_singleton_self w)
    rw [hfed.hasSlot_eq hw hempty] at hslot
    contradiction
  obtain ⟨hdrifts, hjumped, hbuffer⟩ := Foreground.fed_jump hfed hstalls.atRest hmore
  exact ⟨h.of_drifts hdrifts hjumped.toSteered, hbuffer⟩

/-- After a jump there is less left, so there are jumps enough. -/
theorem through_drain {n : Nat} (h : t.Keeps s rs fault) (hn : t.pending.length < n)
    (hnext : t.queue.mailbox.buffer = [] ∨ t.pending.length + 1 < n) :
    (t.drain s.work n).Keeps s rs fault ∧ (t.drain s.work n).Through fault := by
  induction n generalizing t with
  | zero => exact absurd hn (Nat.not_lt_zero _)
  | succ n ih =>
    obtain ⟨hkeeps, hsettles⟩ := settles_settle h
    rw [drain]
    generalize t.settle s.work = t' at hkeeps hsettles
    cases hsettles with
    | through hthrough =>
      rw [hthrough.ticket_eq]
      exact ⟨hkeeps, hthrough⟩
    | stalls hstalls hle hlt =>
      obtain ⟨hjumped, hbuffer⟩ := keeps_jump hkeeps hstalls
      have hleft : t'.pending.length < n := by
        rcases hnext with hempty | hmore
        · exact (hlt hempty).trans_le (Nat.le_of_lt_succ hn)
        · omega
      rw [hstalls.isSome]
      exact ih hjumped hleft (.inl hbuffer)

/-! ## Input arrives -/

/-- More lines can be read. -/
theorem keeps_read {lines : List (List UInt8)}
    (h : t.Keeps s (requestsOfLines lines).1 (requestsOfLines lines).2)
    (more : List (List UInt8)) : (t.read more).Keeps s (requestsOfLines (lines ++ more)).1
      (requestsOfLines (lines ++ more)).2 := by
  obtain ⟨⟨fed, hfed, hrs⟩, htickets, hfault, hended⟩ := h
  cases hread : (requestsOfLines lines).2 with
  | some fault =>
    have hsame := requestsOfLines_append_of_some hread more
    have hdone : (t.ended.isSome || t.fault.isSome) = true := by
      rw [hfault, hread]
      exact Bool.or_true _
    rw [hsame, read, if_pos hdone]
    exact ⟨⟨fed, hfed, hrs⟩, htickets, hfault, hended⟩
  | none =>
    have hgoing : t.ended = none := by
      rcases hended with hgoing | ⟨hends, -, -⟩
      · exact hgoing
      · rw [hends, hread]
        rfl
    have hopen : ¬ (t.ended.isSome || t.fault.isSome) = true := by
      rw [hgoing, hfault, hread]
      nofun
    rw [requestsOfLines_append hread, read, if_neg hopen]
    refine ⟨⟨fed, hfed, ?_⟩, htickets, rfl, .inl hgoing⟩
    rw [← hrs, List.append_assoc]

/-- A session that has read all lines of these bytes that have an end. -/
structure Reads (s : Simulation) (bytes : List UInt8) (t : Session) : Prop where
  exists_lines : ∃ lines, Text.cut newline bytes = lines ++ [t.unfinished] ∧
    t.Keeps s (requestsOfLines lines).1 (requestsOfLines lines).2
  isComplete_eq : t.isComplete = false

section Reads

variable {bytes : List UInt8} (h : t.Reads s bytes)
include h

theorem Reads.settle :
    (t.settle s.work).Reads s bytes ∧ (t.settle s.work).queue.AtRest s.work := by
  obtain ⟨⟨lines, hcut, hkeeps⟩, hopen⟩ := h
  obtain ⟨hsettled, hsettles⟩ := settles_settle hkeeps
  have haside : (t.settle s.work).aside = t.aside := aside_pumpAll s t _
  have hunfinished : (t.settle s.work).unfinished = t.unfinished := congrArg Prod.fst haside
  have hstill : (t.settle s.work).isComplete = false := (congrArg Prod.snd haside).trans hopen
  refine ⟨⟨⟨lines, by rw [hunfinished, hcut], hsettled⟩, hstill⟩, ?_⟩
  cases hsettles with
  | through _ hr => exact hr hopen
  | stalls hstalls => exact hstalls.atRest

/-- A piece of input goes on with the unfinished line. -/
theorem Reads.receive (piece : List UInt8) : (t.receive piece).Reads s (bytes ++ piece) := by
  obtain ⟨⟨lines, hcut, hkeeps⟩, hopen⟩ := h
  have hall := Text.cut_append hcut piece
  rcases List.eq_nil_or_concat' (Text.cut newline (t.unfinished ++ piece)) with
    hnone | ⟨more, last, hnew⟩
  · exact absurd hnone (Text.cut_ne_nil _ _)
  · have hreceive : t.receive piece = ({ t with unfinished := last }).read more := by
      rw [Session.receive, hnew, List.dropLast_concat, List.getLastD_concat]
    have hread := keeps_read (t := { t with unfinished := last })
      ⟨hkeeps.exists_fed, hkeeps.tickets_eq, hkeeps.fault_eq, hkeeps.ended_eq⟩ more
    have haside := aside_read { t with unfinished := last } more
    have hlast : (({ t with unfinished := last } : Session).read more).unfinished = last :=
      congrArg Prod.fst haside
    rw [hreceive]
    refine ⟨⟨lines ++ more, ?_, hread⟩, (congrArg Prod.snd haside).trans hopen⟩
    rw [hall, hnew, hlast, List.append_assoc]

/-- The clock goes on while everything is at rest. -/
theorem Reads.tick {q : Queue} (hd : Drift s t.queue q)
    (hline : ∃ line now, q = { t.queue with line, now }) : (t.withQueue q).Reads s bytes := by
  obtain ⟨⟨lines, hcut, hkeeps⟩, hopen⟩ := h
  obtain ⟨fed, hfed, -⟩ := hkeeps.exists_fed
  have htended := hd.tended hfed.toTended
  have hsteered : q.Steered s := by
    obtain ⟨line, now, rfl⟩ := hline
    exact ⟨htended, hfed.turn_eq, hfed.sleeps⟩
  exact ⟨⟨lines, hcut, hkeeps.of_drifts (f := ⟨q, turnCredit⟩) (.single hd) hsteered⟩, hopen⟩

theorem Reads.advanceWithin (time n : Nat) :
    (Session.advanceWithin s.work time n t).Reads s bytes := by
  induction n generalizing t with
  | zero => exact h
  | succ n ih =>
    obtain ⟨hsettled, hr⟩ := h.settle
    rw [Session.advanceWithin]
    generalize t.settle s.work = t' at hsettled hr
    cases hd : t'.queue.deadline? with
    | some deadline =>
      dsimp only
      split
      · exact ih (hsettled.tick (.wake hr hd) ⟨_, _, wakeRunAt_eq_joined _ _⟩)
      · next hlater =>
        refine hsettled.tick (.wait hr fun d hd' => ?_) ⟨_, _, rfl⟩
        obtain rfl := Option.some.inj (hd.symm.trans hd')
        exact Nat.lt_of_not_le hlater
    | none =>
      refine hsettled.tick (.wait hr fun d hd' => ?_) ⟨_, _, rfl⟩
      rw [hd] at hd'
      contradiction

theorem Reads.arrive {a : Arrival} (ha : a ≠ .cancellation) :
    (t.arrive s.work a).Reads s (bytes ++ a.piece) := by
  cases a with
  | bytes piece => exact (h.receive piece).settle.1
  | time ms =>
    show (t.arrive s.work (.time ms)).Reads s (bytes ++ [])
    rw [List.append_nil]
    exact (h.advanceWithin _ _).settle.1
  | cancellation => contradiction

theorem Reads.foldl_arrive {arrivals : List Arrival} (hgoing : .cancellation ∉ arrivals) :
    (arrivals.foldl (fun t a => t.arrive s.work a) t).Reads s (bytes ++ input arrivals) := by
  induction arrivals generalizing t bytes with
  | nil => rwa [input, List.flatMap_nil, List.append_nil]
  | cons a rest ih =>
    obtain ⟨ha, hrest⟩ := not_or.mp (List.mem_cons.not.mp hgoing)
    rw [List.foldl_cons, input, List.flatMap_cons, ← List.append_assoc]
    exact ih (h.arrive (Ne.symm ha)) hrest

/-- At the end the last line is read, whether it has an end or not. -/
theorem Reads.finishInput : t.finishInput.Keeps s (requestsOfLines (Text.cut newline bytes)).1
    (requestsOfLines (Text.cut newline bytes)).2 := by
  obtain ⟨⟨lines, hcut, hkeeps⟩, -⟩ := h
  have hcomplete (u : List UInt8) : ({ t with isComplete := true, unfinished := u }).Keeps s
      (requestsOfLines lines).1 (requestsOfLines lines).2 :=
    ⟨hkeeps.exists_fed, hkeeps.tickets_eq, hkeeps.fault_eq, hkeeps.ended_eq⟩
  unfold Session.finishInput
  dsimp only
  rw [hcut]
  split
  · next hempty =>
    rw [List.isEmpty_iff.mp hempty, requestsOfLines_concat_nil]
    exact hcomplete []
  · exact keeps_read (hcomplete []) _

end Reads

/-- Once the input has ended, all that is on its lines up to the first that is no text is submitted.
-/
theorem consume_through (h : f.queue.Fed s [] []) (hw : f.queue.mailbox.waiting = [])
    {arrivals : List Arrival} (hgoing : .cancellation ∉ arrivals) :
    (Session.consume s.work { foreground := f } arrivals).Keeps s
        (requestsOfLines (Text.cut newline (input arrivals))).1
        (requestsOfLines (Text.cut newline (input arrivals))).2 ∧
      (Session.consume s.work { foreground := f } arrivals).Through
        (requestsOfLines (Text.cut newline (input arrivals))).2 := by
  have hstart : ({ foreground := f } : Session).Reads s [] :=
    ⟨⟨[], rfl, ⟨[], h, rfl⟩, by rw [Mailbox.tickets]; exact congrArg _ hw, rfl, .inl rfl⟩, rfl⟩
  have hread := hstart.settle.1.foldl_arrive hgoing
  exact through_drain hread.finishInput (Nat.lt_add_of_pos_right Nat.two_pos)
    (.inr (Nat.lt_succ_self _))

section Run

variable {config : QueueConfig} {q : Queue} {arrivals : List Arrival}
  (hopen : Queue.open? config = some q) (hgoing : .cancellation ∉ arrivals)
include hopen hgoing

theorem run_of_readable
    (hlines : requestsOfLines (Text.cut newline (input arrivals)) = (rs, none)) :
    ∃ q', Session.run s.work q arrivals = .ok q' ∧ q'.published = .stopped ∧ q'.Submitted rs := by
  obtain ⟨hkeeps, hthrough⟩ := consume_through (f := ⟨q, turnCredit⟩)
    (fed_of_open? (s := s) hopen) (by rw [eq_of_open? hopen]) hgoing
  rw [hlines] at hkeeps hthrough
  obtain ⟨fed, hfed, hrs⟩ := hkeeps.exists_fed
  have hnobody := hkeeps.waiting_eq_nil hthrough.ticket_eq
  rw [hthrough.pending_eq, List.append_nil] at hrs
  obtain ⟨hphase, hdrifts⟩ := Foreground.stopped_finish hfed.toSteered
  have hannounced := (hdrifts.tended hfed.cancel.toTended).flow.announced
  have hsubmitted := hfed.submitted_of_cancel hnobody hdrifts
  rw [hrs] at hsubmitted
  refine ⟨_, ?_, hannounced.mpr hphase, hsubmitted⟩
  unfold Session.run
  dsimp only
  rw [hthrough.ended_eq]
  rfl

theorem run_of_unreadable {fault : Utf8Fault}
    (hlines : requestsOfLines (Text.cut newline (input arrivals)) = (rs, some fault)) :
    Session.run s.work q arrivals = .error fault ∧
      (Session.consume s.work { foreground := ⟨q, turnCredit⟩ } arrivals).queue.Submitted rs := by
  obtain ⟨hkeeps, hthrough⟩ := consume_through (f := ⟨q, turnCredit⟩)
    (fed_of_open? (s := s) hopen) (by rw [eq_of_open? hopen]) hgoing
  rw [hlines] at hkeeps hthrough
  obtain ⟨fed, hfed, hrs⟩ := hkeeps.exists_fed
  have hsubmitted := hfed.submitted_all (hkeeps.waiting_eq_nil hthrough.ticket_eq)
  rw [hthrough.pending_eq, List.append_nil] at hrs
  rw [hrs] at hsubmitted
  refine ⟨?_, hsubmitted⟩
  unfold Session.run
  dsimp only
  rw [hthrough.ended_eq]
  rfl

end Run

end Session

/-- A session that is not cancelled submits the requests on the lines of its input, each once and in
order: on all of them if the input is text, and otherwise on those before the first line that is
none. -/
theorem submits_lines {config : QueueConfig} {q : Queue} (s : Simulation) {arrivals : List Arrival}
    (hopen : Queue.open? config = some q) (hgoing : .cancellation ∉ arrivals) :
    (∀ text : String, (input arrivals).toByteArray = text.toUTF8 → ∃ q',
      ({ simulation := s, command := .run } : Invocation).execute q arrivals = .ok q' ∧
        q'.published = .stopped ∧ q'.Submitted (requestsOn (text.toList.splitOn '\n'))) ∧
    ∀ (lines : List (List Char)) (bad : List UInt8) (rest : List (List UInt8)),
      Text.cut newline (input arrivals) = lines.map Text.encode ++ bad :: rest →
      ¬ bad.toByteArray.IsValidUTF8 →
      ({ simulation := s, command := .run } : Invocation).execute q arrivals =
          .error .unreadableInput ∧
        ProgramFault.unreadableInput.message =
          "failed to read stdin\n\nCaused by:\n    stream did not contain valid UTF-8" ∧
        (Session.consume s.work { foreground := ⟨q, turnCredit⟩ } arrivals).queue.Submitted
          (requestsOn lines) := by
  constructor
  · intro text htext
    have hlines : requestsOfLines (Text.cut newline (input arrivals)) =
        (requestsOn (text.toList.splitOn '\n'), none) := by
      rw [Text.eq_encode_of_toByteArray htext, ← Text.cut_eq_splitOn, ← requestsOfLines_encode]
      exact congrArg _ (Text.cut_encode _)
    obtain ⟨q', hrun, hstopped, hsubmitted⟩ := Session.run_of_readable hopen hgoing hlines
    exact ⟨q', by rw [Invocation.execute, hrun], hstopped, hsubmitted⟩
  · intro lines bad rest hcut hbad
    obtain ⟨fault, hlines⟩ := requestsOfLines_of_unreadable lines hbad rest
    rw [← hcut] at hlines
    obtain ⟨hrun, hsubmitted⟩ := Session.run_of_unreadable hopen hgoing hlines
    exact ⟨by rw [Invocation.execute, hrun], rfl, hsubmitted⟩

/-- A character and a line end that arrive in two pieces each, and a line that is no text. -/
theorem submits_lines_broken :
    let q : Queue := { config := narrow, mailbox := { free := narrow.capacity } }
    let run : Invocation := { simulation := { workMs := 7 }, command := .run }
    let whole : List Arrival := [.bytes [0x61, 0x0A, 0xC3], .time 5, .bytes [0xA9, 0x0D],
      .bytes [0x0A, 0x20, 0x0A, 0x62]]
    let torn : List Arrival := [.bytes [0x61, 0x0A, 0xC3], .bytes [0x0A, 0x62]]
    Queue.open? narrow = some q ∧ .cancellation ∉ whole ∧ .cancellation ∉ torn ∧
      (∃ q', run.execute q whole = .ok q' ∧ q'.published = .stopped ∧
        q'.Submitted [⟨"a"⟩, ⟨"é"⟩, ⟨"b"⟩]) ∧
      run.execute q torn = .error .unreadableInput := by
  have hopen : Queue.open? narrow =
      some { config := narrow, mailbox := { free := narrow.capacity } } := rfl
  have hwhole : Arrival.cancellation ∉ [.bytes [0x61, 0x0A, 0xC3], .time 5, .bytes [0xA9, 0x0D],
      .bytes [0x0A, 0x20, 0x0A, 0x62]] := by simp
  have htorn : Arrival.cancellation ∉ [.bytes [0x61, 0x0A, 0xC3], .bytes [0x0A, 0x62]] := by simp
  obtain ⟨htext, -⟩ := submits_lines { workMs := 7 } hopen hwhole
  obtain ⟨-, hfault⟩ := submits_lines { workMs := 7 } hopen htorn
  obtain ⟨q', hrun, hstopped, hsubmitted⟩ := htext "a\né\r\n \nb" rfl
  have hlines : requestsOn ("a\né\r\n \nb".toList.splitOn '\n') = [⟨"a"⟩, ⟨"é"⟩, ⟨"b"⟩] := by decide
  rw [hlines] at hsubmitted
  have hbad : ¬ ([0xC3] : List UInt8).toByteArray.IsValidUTF8 := by
    rw [Text.isValidUTF8_iff]
    rintro ⟨cs, hcs⟩
    contradiction
  exact ⟨hopen, hwhole, htorn, ⟨q', hrun, hstopped, hsubmitted⟩,
    (hfault [['a']] [0xC3] [[0x62]] (by decide) hbad).1⟩

end CoalescingQueue.Console
