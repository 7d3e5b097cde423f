import EnvelopeClient.Proofs.Writers.System

/-!
# What one caller does at the write half

`Caller.Stands` says how a caller stands to the line at the write half: it is in line as long as its
call goes on and has something to write, and it has written nothing while somebody who asked earlier
is still in line. A caller that is polled or goes away (`Connection.Advances`) writes only at the head
of the line, and one that comes (`Connection.Arrives`) only if nobody is in line.
-/

namespace EnvelopeClient

/-- How a caller stands to a line at the write half; turns that nobody has asked for are from `next`
on. -/
structure Caller.Stands (turns : List Nat) (next : Nat) (caller : Caller) : Prop where
  lt : ∀ turn, caller.turn = some turn → turn < next
  /-- A call that goes on has the rest of the message to write. -/
  left : ∀ call, caller.call? = some call → caller.wrote ++ call.left = caller.errand.text
  front : caller.wrote <+: caller.errand.text
  whole : caller.succeeded = true → caller.wrote = caller.errand.text
  /-- A call that has a turn is in line, and it is its caller's. -/
  inLine : ∀ call turn, caller.call? = some call → call.turn? = some turn →
    caller.turn = some turn ∧ turn ∈ turns
  /-- Who is in line has a call that goes on. -/
  waits : ∀ turn ∈ turns, caller.turn = some turn →
    ∃ call, caller.call? = some call ∧ call.turn? = some turn
  /-- Nobody has the write half before those who asked earlier have left. -/
  aside : ∀ turn, caller.turn = some turn → (∃ earlier ∈ turns, earlier < turn) →
    caller.granted = false
  silent : caller.granted = false → caller.wrote = []
  refused : caller.turn = none → caller.granted = false
  /-- A call that has no turn any more has had it. -/
  sent : ∀ call, caller.call? = some call → call.turn? = none → caller.granted = true
  done : caller.succeeded = true → caller.granted = true

namespace Caller

variable {caller caller' : Caller} {turns turns' : List Nat} {next next' : Nat}

/-- Others may leave the line, and join it behind. -/
theorem Stands.of_line (h : caller.Stands turns next) (hnext : next ≤ next')
    (hold : ∀ turn ∈ turns', turn ∈ turns ∨ next ≤ turn)
    (hkeeps : ∀ turn ∈ turns, caller.turn = some turn → turn ∈ turns') :
    caller.Stands turns' next' where
  lt turn hturn := Nat.lt_of_lt_of_le (h.lt turn hturn) hnext
  left := h.left
  front := h.front
  whole := h.whole
  inLine call turn hcall hturn := by
    obtain ⟨hown, hmem⟩ := h.inLine call turn hcall hturn
    exact ⟨hown, hkeeps turn hmem hown⟩
  waits turn hmem hturn := by
    rcases hold turn hmem with hmem | hge
    · exact h.waits turn hmem hturn
    · have hlt := h.lt turn hturn
      omega
  aside turn hturn := by
    rintro ⟨earlier, hmem, hlt⟩
    rcases hold earlier hmem with hmem | hge
    · exact h.aside turn hturn ⟨earlier, hmem, hlt⟩
    · have hlt' := h.lt turn hturn
      omega
  silent := h.silent
  refused := h.refused
  sent := h.sent
  done := h.done

/-- A caller that was refused, or has no message, writes nothing. -/
theorem Stands.wrote_of_barred (h : caller.Stands turns next)
    (hbarred : caller.turn = none ∨ caller.errand.text = []) : caller.wrote = [] := by
  rcases hbarred with hnone | htext
  · exact h.silent (h.refused hnone)
  · have hfront := h.front
    rw [htext] at hfront
    exact List.prefix_nil.mp hfront

/-- It has written its message as long as its call goes on. -/
theorem Stands.whole_of_barred (h : caller.Stands turns next)
    (hbarred : caller.turn = none ∨ caller.errand.text = []) {call : Call}
    (hcall : caller.call? = some call) : caller.wrote = caller.errand.text := by
  rw [h.wrote_of_barred hbarred]
  rcases hbarred with hnone | htext
  · cases hturn : call.turn? with
    | none => cases (h.sent call hcall hturn).symm.trans (h.refused hnone)
    | some turn => cases (h.inLine call turn hcall hturn).1.symm.trans hnone
  · exact htext.symm

/-- How a caller stands that has, or has had, the write half: `left` is what it has not written, and
its call is in line exactly if its turn is. -/
theorem stands_of_granted {turn : Nat} {left : List UInt8} (hturn : caller.turn = some turn)
    (hgranted : caller.granted = true) (hlt : turn < next) (hfirst : ∀ other ∈ turns, ¬other < turn)
    (htext : caller.wrote ++ left = caller.errand.text)
    (hcall : ∀ call, caller.call? = some call → call.left = left ∧
      ∀ own, call.turn? = some own → own = turn ∧ turn ∈ turns)
    (hsucceeded : caller.succeeded = true → left = [])
    (hwaits : turn ∈ turns → ∃ call, caller.call? = some call ∧ call.turn? = some turn) :
    caller.Stands turns next where
  lt own hown := by
    rw [hturn] at hown
    cases hown
    exact hlt
  left call hpending := by rw [(hcall call hpending).1, htext]
  front := ⟨left, htext⟩
  whole hdone := by rw [← htext, hsucceeded hdone, List.append_nil]
  inLine call own hpending hown := by
    obtain ⟨rfl, hmem⟩ := (hcall call hpending).2 own hown
    exact ⟨hturn, hmem⟩
  waits own hmem hown := by
    rw [hturn] at hown
    cases hown
    exact hwaits hmem
  aside own hown := by
    rintro ⟨earlier, hmem, hearlier⟩
    rw [hturn] at hown
    cases hown
    exact absurd hearlier (hfirst earlier hmem)
  silent hnot := by
    rw [hgranted] at hnot
    cases hnot
  refused hnone := by
    rw [hturn] at hnone
    cases hnone
  sent _ _ _ := hgranted
  done _ := hgranted

end Caller

namespace Connection

variable {c c' : Connection} {more : List UInt8} {turns : List Nat} {caller caller' : Caller}

theorem Wrote.added (h : Wrote more turns c c') : c.added c' = more := by
  rw [Connection.added, h.unread, List.drop_left]

/-! ### One caller moves -/

/-- A caller moves, which takes `c` to `c'`: the bytes `more` are written by the head of the line, and
nobody else leaves it. -/
structure Advances (more : List UInt8) (c c' : Connection) (caller caller' : Caller) : Prop where
  unread : c'.outbound.unread = c.outbound.unread ++ more
  nextTurn : c'.nextTurn = c.nextTurn
  sublist : c'.turns.Sublist c.turns
  keeps : ∀ turn ∈ c.turns, turn ∈ c'.turns ∨ caller.turn = some turn
  head : more ≠ [] → ∃ turn, caller.turn = some turn ∧ c.turns.head? = some turn
  errand : caller'.errand = caller.errand
  turn : caller'.turn = caller.turn
  wrote : caller'.wrote = caller.wrote ++ more
  stands : caller'.Stands c'.turns c'.nextTurn

/-- Nobody in line has asked before its head. -/
theorem not_lt_of_head {line : List Nat} (hline : line.Pairwise (· < ·)) {turn earlier : Nat}
    (hhead : line.head? = some turn) (hmem : earlier ∈ line) : ¬earlier < turn := by
  cases line with
  | nil => cases hhead
  | cons first rest =>
    cases hhead
    rcases List.mem_cons.mp hmem with rfl | hmem
    · exact Nat.lt_irrefl _
    · have hlt := List.rel_of_pairwise_cons hline hmem
      omega

/-! ### The moves of a caller -/

variable {call : Call} (h : caller.Stands c.turns c.nextTurn) (hcall : caller.call? = some call)
  (now : Nat)

include h hcall

/-- A caller whose turn it is writes the front of what it has left. -/
theorem advances_in_turn (hline : c.turns.Pairwise (· < ·)) {turn : Nat}
    (hturn : call.turn? = some turn) (hhead : c.turns.head? = some turn) :
    ∃ more, Advances more c (call.poll c now).2 caller (caller.polled c (call.poll c now)) := by
  obtain ⟨hown, hmem⟩ := h.inLine call turn hcall hturn
  have hgranted : (caller.polled c (call.poll c now)).granted = true := by
    simp [Caller.polled, hown, hasTurn, hhead]
  have htext : ∀ {more left : List UInt8}, call.left = more ++ left →
      (caller.wrote ++ more) ++ left = caller.errand.text := by
    intro more left hleft
    rw [List.append_assoc, ← hleft, h.left call hcall]
  cases poll_in_turn call now hturn hhead with
  | @goesOn more left call' hbytes hpending hturn' hleft hwrote =>
    have hcall' : (caller.polled c (call.poll c now)).call? = some call' :=
      Caller.call?_eq_some.mpr (congrArg some hpending)
    have hwrote' : (caller.polled c (call.poll c now)).wrote = caller.wrote ++ more := by
      rw [Caller.polled, hwrote.added]
    refine ⟨more, hwrote.unread, hwrote.nextTurn, hwrote.turns ▸ .refl _, ?_,
      fun _ => ⟨turn, hown, hhead⟩, rfl, rfl, hwrote', ?_⟩
    · intro other hother
      exact .inl (by rwa [hwrote.turns])
    · rw [hwrote.turns, hwrote.nextTurn]
      refine Caller.stands_of_granted hown hgranted (h.lt turn hown)
        (fun other => not_lt_of_head hline hhead) (by rw [hwrote']; exact htext hbytes) ?_ ?_
        (fun _ => ⟨call', hcall', hturn'⟩)
      · intro call'' hcall''
        rw [hcall'] at hcall''
        cases hcall''
        refine ⟨hleft, ?_⟩
        intro own hown'
        rw [hturn'] at hown'
        cases hown'
        exact ⟨rfl, hmem⟩
      · intro hsucceeded
        obtain ⟨outcome, hdone, -⟩ := Caller.succeeded_iff.mp hsucceeded
        cases hpending.symm.trans (Option.some.inj hdone)
  | @ends more left hbytes hpending hfinished hwrote =>
    have hwrote' : (caller.polled c (call.poll c now)).wrote = caller.wrote ++ more := by
      rw [Caller.polled, hwrote.added]
    refine ⟨more, hwrote.unread, hwrote.nextTurn, by rw [hwrote.turns]; exact List.filter_sublist,
      ?_, fun _ => ⟨turn, hown, hhead⟩, rfl, rfl, hwrote', ?_⟩
    · intro other hother
      rw [hwrote.turns, List.mem_filter]
      by_cases heq : other = turn
      · exact .inr (heq ▸ hown)
      · exact .inl ⟨hother, by simpa using heq⟩
    · rw [hwrote.turns, hwrote.nextTurn]
      refine Caller.stands_of_granted hown hgranted (h.lt turn hown) ?_
        (by rw [hwrote']; exact htext hbytes) ?_ ?_ ?_
      · intro other hother
        exact not_lt_of_head hline hhead ((List.mem_filter.mp hother).1)
      · intro call' hcall'
        obtain ⟨hnone, rfl⟩ :=
          hpending call' (Option.some.inj (Caller.call?_eq_some.mp hcall'))
        refine ⟨Call.left_of_turn? hnone, ?_⟩
        intro own hown'
        rw [hnone] at hown'
        cases hown'
      · intro hsucceeded
        obtain ⟨outcome, hdone, hok⟩ := Caller.succeeded_iff.mp hsucceeded
        exact hfinished outcome (Option.some.inj hdone) hok
      · intro hnot
        simp at hnot

/-- A caller whose turn it is not writes nothing, and stays in line if it is there. -/
theorem advances_aside (hturn : ∀ turn, call.turn? = some turn → c.turns.head? ≠ some turn) :
    Advances [] c (call.poll c now).2 caller (caller.polled c (call.poll c now)) := by
  obtain ⟨hwrote, hsame, hwaits⟩ := poll_aside call now hturn
  have hwrote' : (caller.polled c (call.poll c now)).wrote = caller.wrote := by
    rw [Caller.polled, hwrote.added, List.append_nil]
  have hgranted : (caller.polled c (call.poll c now)).granted = caller.granted := by
    show (caller.granted || caller.turn.any c.hasTurn) = caller.granted
    cases hown : caller.turn with
    | none => simp
    | some turn =>
      have hhead : c.turns.head? ≠ some turn := by
        intro hhead
        obtain ⟨call', hcall', hturn'⟩ := h.waits turn (List.mem_of_mem_head? hhead) hown
        rw [hcall] at hcall'
        cases hcall'
        exact hturn turn hturn' hhead
      simp [hasTurn, hhead]
  have hpending : ∀ call', (caller.polled c (call.poll c now)).call? = some call' →
      call'.turn? = call.turn? ∧ call'.left = call.left := by
    intro call' hcall'
    have hpoll := Option.some.inj (Caller.call?_eq_some.mp hcall')
    refine ⟨hsame call' hpoll, ?_⟩
    cases hcase : call.turn? with
    | none => rw [Call.left_of_turn? hcase, Call.left_of_turn? ((hsame call' hpoll).trans hcase)]
    | some turn =>
      cases hpoll.symm.trans (hwaits (by simp [hcase]))
      rfl
  refine ⟨hwrote.unread, hwrote.nextTurn, hwrote.turns ▸ .refl _,
    fun turn hmem => .inl (by rwa [hwrote.turns]), fun hne => absurd rfl hne, rfl, rfl,
    by rw [hwrote', List.append_nil], ?_⟩
  rw [hwrote.turns, hwrote.nextTurn]
  have hfinished : (caller.polled c (call.poll c now)).succeeded = true → call.turn? = none := by
    intro hsucceeded
    obtain ⟨outcome, hdone, -⟩ := Caller.succeeded_iff.mp hsucceeded
    cases hcase : call.turn? with
    | none => rfl
    | some turn => cases (Option.some.inj hdone).symm.trans (hwaits (by simp [hcase]))
  refine ⟨h.lt, ?_, by rw [hwrote']; exact h.front, ?_, ?_, ?_, ?_, ?_, ?_, ?_, ?_⟩
  · intro call' hcall'
    rw [hwrote', (hpending call' hcall').2]
    exact h.left call hcall
  · intro hsucceeded
    rw [hwrote', ← List.append_nil caller.wrote, ← Call.left_of_turn? (hfinished hsucceeded)]
    exact h.left call hcall
  · intro call' turn hcall' hturn'
    exact h.inLine call turn hcall ((hpending call' hcall').1.symm.trans hturn')
  · intro turn hmem hown
    obtain ⟨call', hcall', hturn'⟩ := h.waits turn hmem hown
    rw [hcall] at hcall'
    cases hcall'
    have hpoll := hwaits (by simp [hturn'])
    exact ⟨call, Caller.call?_eq_some.mpr (congrArg some hpoll), hturn'⟩
  · intro turn hown hearlier
    rw [hgranted]
    exact h.aside turn hown hearlier
  · intro hnot
    rw [hwrote']
    exact h.silent (hgranted.symm.trans hnot)
  · intro hnone
    rw [hgranted]
    exact h.refused hnone
  · intro call' hcall' hnone
    rw [hgranted]
    exact h.sent call hcall ((hpending call' hcall').1.symm.trans hnone)
  · intro hsucceeded
    rw [hgranted]
    exact h.sent call hcall (hfinished hsucceeded)

theorem advances_poll (hline : c.turns.Pairwise (· < ·)) :
    ∃ more, Advances more c (call.poll c now).2 caller (caller.polled c (call.poll c now)) := by
  by_cases hturn : ∃ turn, call.turn? = some turn ∧ c.turns.head? = some turn
  · obtain ⟨turn, hturn, hhead⟩ := hturn
    exact advances_in_turn h hcall now hline hturn hhead
  · refine ⟨[], advances_aside h hcall now ?_⟩
    intro turn hturn' hhead
    exact hturn ⟨turn, hturn', hhead⟩

omit now in
/-- A caller that goes away leaves the line. -/
theorem advances_drop : Advances [] c (call.drop c) caller caller.dropped := by
  have hwrote := wrote_drop call c
  refine ⟨hwrote.unread, hwrote.nextTurn, by rw [hwrote.turns]; exact List.filter_sublist, ?_,
    fun hne => absurd rfl hne, rfl, rfl, (List.append_nil _).symm, ?_⟩
  · intro turn hmem
    rw [hwrote.turns, List.mem_filter]
    by_cases hown : call.turn? = some turn
    · exact .inr (h.inLine call turn hcall hown).1
    · exact .inl ⟨hmem, by simpa using hown⟩
  · rw [hwrote.turns, hwrote.nextTurn]
    have hnone : ∀ call', caller.dropped.call? ≠ some call' := by
      intro call' hcall'
      cases hcall'
    have hfailed : caller.dropped.succeeded ≠ true := by
      intro hsucceeded
      cases hsucceeded
    refine ⟨h.lt, fun call' hcall' => absurd hcall' (hnone call'), h.front,
      fun hdone => absurd hdone hfailed, fun call' _ hcall' => absurd hcall' (hnone call'), ?_, ?_,
      h.silent, h.refused, fun call' hcall' => absurd hcall' (hnone call'),
      fun hdone => absurd hdone hfailed⟩
    · intro turn hmem hown
      rw [List.mem_filter] at hmem
      -- whoever is in line has a call that goes on, and it was this one
      obtain ⟨call', hcall', hturn⟩ := h.waits turn hmem.1 hown
      rw [hcall] at hcall'
      cases hcall'
      simp [hturn] at hmem
    · intro turn hown
      rintro ⟨earlier, hmem, hlt⟩
      exact h.aside turn hown ⟨earlier, (List.mem_filter.mp hmem).1, hlt⟩

/-! ### A caller comes -/

omit h hcall now

/-- A caller comes, which takes `c` to `c'`: it writes nothing unless nobody is in line. -/
structure Arrives (more : List UInt8) (c c' : Connection) (caller : Caller) : Prop where
  unread : c'.outbound.unread = c.outbound.unread ++ more
  nextTurn : c.nextTurn ≤ c'.nextTurn
  line : c'.turns.Sublist (c.turns ++ [c.nextTurn])
  lt : ∀ turn ∈ c'.turns, turn < c'.nextTurn
  keeps : ∀ turn ∈ c.turns, turn ∈ c'.turns
  first : more ≠ [] → c.turns = []
  wrote : caller.wrote = more
  turn : caller.turn = none ∨ caller.turn = some c.nextTurn ∧
    (caller.errand.text ≠ [] → c.status = .open)
  stands : caller.Stands c'.turns c'.nextTurn

/-- A closed connection takes no messages. -/
theorem Arrives.barred (h : Arrives more c c' caller) (hclosed : c.status = .closed) :
    caller.turn = none ∨ caller.errand.text = [] := by
  rcases h.turn with hnone | ⟨-, hopen⟩
  · exact .inl hnone
  · by_cases htext : caller.errand.text = []
    · exact .inr htext
    · cases (hopen htext).symm.trans hclosed

theorem asks_begin (errand : Errand) (c : Connection) (now : Nat) :
    Asks errand.text c now (errand.begin c now) := by
  cases errand with
  | send event payload => exact asks_send c now event payload
  | request event payload => exact asks_request c now event payload
  | ask event payload limit => exact asks_ask c now event payload limit
  | close => exact asks_close c now

/-- The first poll of a call is one of a caller who has just asked for a turn. -/
theorem begun_eq_polled {errand : Errand} {r : Poll × Connection}
    (hlt : ∀ turn ∈ c.turns, turn < c.nextTurn) (hunread : c'.outbound.unread = c.outbound.unread)
    (hturns : c'.turns = c.turns ++ [c.nextTurn]) (hnext : r.2.nextTurn = c.nextTurn + 1) :
    Caller.begun errand c r =
      Caller.polled ⟨errand, some c.nextTurn, false, [], some (.pending call)⟩ c' r := by
  have hne : r.2.nextTurn ≠ c.nextTurn := by omega
  have hhead : c'.hasTurn c.nextTurn = c.turns.isEmpty := by
    rw [hasTurn, hturns]
    cases hline : c.turns with
    | nil => simp
    | cons first rest =>
      have hfirst := hlt first (by simp [hline])
      simp only [List.cons_append, List.head?_cons, Option.some.injEq, List.isEmpty_cons,
        decide_eq_false_iff_not]
      omega
  simp only [Caller.begun, Caller.polled, Connection.added, hunread, ne_eq, hne, if_false,
    not_false_eq_true, decide_true, Bool.true_and, Bool.false_or, Option.any_some, hhead,
    List.nil_append]

/-- Behind everybody in line, the line is still in order. -/
theorem pairwise_concat {line : List Nat} {next : Nat} (hline : line.Pairwise (· < ·))
    (hlt : ∀ turn ∈ line, turn < next) : (line ++ [next]).Pairwise (· < ·) := by
  rw [List.pairwise_append]
  refine ⟨hline, List.pairwise_singleton _ _, ?_⟩
  intro turn hturn last hlast
  rw [List.mem_singleton.mp hlast]
  exact hlt turn hturn

theorem arrives_of_asks {errand : Errand} {now : Nat} {r : Poll × Connection}
    (hline : c.turns.Pairwise (· < ·)) (hlt : ∀ turn ∈ c.turns, turn < c.nextTurn)
    (h : Asks errand.text c now r) : ∃ more, Arrives more c r.2 (.begun errand c r) := by
  cases h with
  | @refused c' failure hwrote =>
    have hbegun : Caller.begun errand c (.failed failure, c') =
        ⟨errand, none, false, [], some (.failed failure)⟩ := by
      simp [Caller.begun, hwrote.nextTurn, hwrote.added]
    rw [hbegun]
    refine ⟨[], hwrote.unread, Nat.le_of_eq hwrote.nextTurn.symm, ?_, ?_, ?_,
      fun hne => absurd rfl hne, rfl, .inl rfl, ?_⟩
    · rw [hwrote.turns]
      exact List.sublist_append_left _ _
    · rw [hwrote.turns, hwrote.nextTurn]
      exact hlt
    · intro turn hturn
      rwa [hwrote.turns]
    · refine ⟨?_, ?_, List.nil_prefix, ?_, ?_, ?_, fun _ _ _ => rfl, fun _ => rfl, fun _ => rfl,
        ?_, ?_⟩
      · intro turn hturn
        cases hturn
      · intro call hcall
        cases hcall
      · intro hsucceeded
        cases hsucceeded
      · intro call turn hcall
        cases hcall
      · intro turn hmem hturn
        cases hturn
      · intro call hcall
        cases hcall
      · intro hsucceeded
        cases hsucceeded
  | @polled c' call hturn hleft hopen hunread hturns hnext =>
    -- the caller as it stands before its first poll
    have hstands : (Caller.mk errand (some c.nextTurn) false [] (some (.pending call))).Stands
        c'.turns c'.nextTurn := by
      have hcall : ∀ call', (Caller.mk errand (some c.nextTurn) false []
          (some (.pending call))).call? = some call' → call' = call := by
        intro call' hcall'
        cases hcall'
        rfl
      have hmem : c.nextTurn ∈ c'.turns := by simp [hturns]
      refine ⟨?_, ?_, List.nil_prefix, ?_, ?_, ?_, fun _ _ _ => rfl, fun _ => rfl, ?_, ?_, ?_⟩
      · intro turn hown
        cases hown
        omega
      · intro call' hcall'
        rw [hcall call' hcall']
        exact hleft
      · intro hsucceeded
        cases hsucceeded
      · intro call' turn hcall' hturn'
        rw [hcall call' hcall', hturn] at hturn'
        cases hturn'
        exact ⟨rfl, hmem⟩
      · intro turn hmem hown
        cases hown
        exact ⟨call, rfl, hturn⟩
      · intro hnone
        cases hnone
      · intro call' hcall' hnone
        rw [hcall call' hcall', hturn] at hnone
        cases hnone
      · intro hsucceeded
        cases hsucceeded
    have hline' : c'.turns.Pairwise (· < ·) := by
      rw [hturns]
      exact pairwise_concat hline hlt
    obtain ⟨more, hadvances⟩ := advances_poll hstands rfl now hline'
    have hnext' : (call.poll c' now).2.nextTurn = c.nextTurn + 1 :=
      hadvances.nextTurn.trans hnext
    rw [begun_eq_polled hlt hunread hturns hnext']
    refine ⟨more, ?_, by omega, ?_, ?_, ?_, ?_, hadvances.wrote, .inr ⟨rfl, hopen⟩,
      hadvances.stands⟩
    · rw [hadvances.unread, hunread]
    · rw [← hturns]
      exact hadvances.sublist
    · intro turn hmem
      have hmem' := hadvances.sublist.subset hmem
      rw [hturns, List.mem_append, List.mem_singleton] at hmem'
      rw [hnext']
      rcases hmem' with hmem' | rfl
      · have hlt' := hlt turn hmem'
        omega
      · omega
    · intro turn hmem
      rcases hadvances.keeps turn (by simp [hturns, hmem]) with hkept | hown
      · exact hkept
      · cases hown
        exact absurd (hlt _ hmem) (Nat.lt_irrefl _)
    · intro hne
      obtain ⟨turn, hown, hhead⟩ := hadvances.head hne
      cases hown
      rw [hturns] at hhead
      cases hempty : c.turns with
      | nil => rfl
      | cons first rest =>
        rw [hempty] at hhead
        cases hhead
        exact absurd (hlt _ (by rw [hempty]; exact List.mem_cons_self)) (Nat.lt_irrefl _)

end Connection

end EnvelopeClient
