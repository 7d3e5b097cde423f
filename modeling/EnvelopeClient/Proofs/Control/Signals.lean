import EnvelopeClient.Control.Basic
import EnvelopeClient.Proofs.Scenario.Moves

/-!
# Whom the control program signals

The control program sends one signal at most, to the process that the reply to its question names,
whatever becomes of the echo, unless it cannot print the number (`Report.Stops`). Every other reply is
a protocol failure. Any 32-bit integer is taken for a process, also zero and the negative ones, which
name groups of processes or all of them (`group_signalled`).

The reply is the data of a message with the tag of the question, which the server has written on a
connection of the program. `signals_as_told` says so of all that can happen between the program and the
server, and that a run of the program is one such course of events.
-/

namespace EnvelopeClient

open Json

/-! ### Replies in a shape -/

section

variable {v : Value} {n : Int} {event : String} {reply : Reply}

theorem asInteger_eq_ok {low high : Int} {name : String} :
    v.asInteger low high name = .ok n ↔ v = .int n ∧ low ≤ n ∧ n ≤ high := by
  constructor
  · intro h
    unfold Value.asInteger at h
    split at h
    · next m =>
      split at h
      · next hrange =>
        cases h
        exact ⟨rfl, by simpa using hrange⟩
      · cases h
    · cases h
  · rintro ⟨rfl, hlow, hhigh⟩
    simp [Value.asInteger, Value.int, hlow, hhigh]

theorem asString_eq_ok {s : String} : v.asString = .ok s ↔ v = .string s := by
  cases v <;> simp [Value.asString]

/-- Reading a reply in a shape and then as what it has the shape of is the same as just that. -/
theorem Reply.readAs_readAs {α : Type} (event : String) {read : Value → Except Mismatch α}
    {wrap : α → Value} (hread : ∀ v a, read v = .ok a → read (wrap a) = .ok a) (reply : Reply) :
    Reply.readAs event read (reply.readAs event fun v => wrap <$> read v) =
      reply.readAs event read := by
  cases reply with
  | error failure => rfl
  | ok v =>
    rw [Reply.readAs, Reply.readAs]
    cases hv : read v with
    | error mismatch => rfl
    | ok a =>
      show Reply.readAs event read (.ok (wrap a)) = _
      rw [Reply.readAs, hread v a hv]

/-- A number that is read once more is the same number. -/
theorem Operation.processNumber_conclude (reply : Reply) :
    processNumber (pid.conclude reply) = processNumber reply := by
  refine Reply.readAs_readAs pidEvent ?_ reply
  intro v n hv
  exact asInteger_eq_ok.mpr ⟨rfl, (asInteger_eq_ok.mp hv).2⟩

/-- A process number is a 32-bit integer, and nothing else is. -/
theorem Operation.processNumber_eq_ok :
    processNumber reply = .ok n ↔ reply = .ok (.int n) ∧ -0x80000000 ≤ n ∧ n ≤ 0x7fffffff := by
  cases reply with
  | error failure => simp [processNumber, Reply.readAs]
  | ok v =>
    have hread : processNumber (.ok v) = .ok n ↔ v.asInt32 = .ok n := by
      rw [processNumber, Reply.readAs]
      cases v.asInt32 <;> simp [Except.mapError]
    rw [hread, Value.asInt32, asInteger_eq_ok]
    simp

theorem Operation.processNumber_toOption :
    (processNumber reply).toOption = some n ↔
      reply = .ok (.int n) ∧ -0x80000000 ≤ n ∧ n ≤ 0x7fffffff := by
  rw [← processNumber_eq_ok]
  cases processNumber reply <;> simp [Except.toOption]

theorem Operation.echoed_conclude (message : String) (reply : Reply) :
    echoed ((echo message).conclude reply) = echoed reply := by
  refine Reply.readAs_readAs echoEvent ?_ reply
  intro v s _
  exact asString_eq_ok.mpr rfl

end

namespace Control

open Operation

/-! ### Reports -/

/-- What is told of a reply before anything else. -/
def Report.Branch.complaint (branch : Branch) : String :=
  branch.failure.elim "" failureLine

/-- The run fails, and this failure is the last that is told, behind that of the echo. -/
structure Report.FailsWith (report : Report) (echoed : Branch) (failure : Failure) : Prop where
  exitCode : report.exitCode = 1
  stderr : report.stderr = echoed.complaint ++ failureLine failure

/-- What becomes of the echo. -/
def Surroundings.echoed (s : Surroundings) (echo : Reply) : Report.Branch :=
  .ofEcho s.print (Operation.echoed echo)

/-- Whom a run signals once both questions are answered. -/
structure Report.Stops (report : Report) (s : Surroundings) (echo process : Reply) : Prop where
  once : report.signalled.length ≤ 1
  /-- The process that the reply names, whatever became of the echo, if its number was printed. -/
  named : ∀ n, n ∈ report.signalled ↔
    process = .ok (.int n) ∧ -0x80000000 ≤ n ∧ n ≤ 0x7fffffff ∧
      (s.print (processLine n)).fault = none
  /-- A signal that cannot be sent is the failure of the run. -/
  unsent : ∀ n reason, n ∈ report.signalled → s.signal n = some reason →
    report.FailsWith (s.echoed echo) (signalFailure n reason)
  /-- If a reply has nobody signalled, it is no process number, which is a protocol failure of the
  question, or its number could not be printed, which is the failure of the run. -/
  refused : ∀ v, process = .ok v → report.signalled = [] →
    (∃ mismatch, v.asInt32 = .error mismatch ∧
      report.FailsWith (s.echoed echo) (unexpectedReply pidEvent mismatch)) ∨
    ∃ n fault, v.asInt32 = .ok n ∧ (s.print (processLine n)).fault = some fault ∧
      report.FailsWith (s.echoed echo) fault.toFailure
  /-- A failure of the question itself is the failure of the run, and nobody is signalled. -/
  failed : ∀ failure, process = .error failure → report.FailsWith (s.echoed echo) failure

/-- The report of a run once both questions are answered. -/
def Surroundings.report (s : Surroundings) (config : Config) (echo process : Reply) : Report :=
  .ofReplies s.print s.signal (s.print (Report.connectingLine config.socketPath)).out
    (Operation.echoed echo) (processNumber process)

section

variable (s : Surroundings) (config : Config) (echo process : Reply)

theorem signalled_report : (s.report config echo process).signalled =
    (processNumber process).toOption.toList.filter fun n =>
      (s.print (Report.processLine n)).fault.isNone := by
  rw [Surroundings.report, Report.ofReplies]
  cases processNumber process with
  | error failure => rfl
  | ok n =>
    cases hprinted : (s.print (Report.processLine n)).fault <;>
      simp [Report.Branch.ofProcess, Except.toOption, hprinted]

/-- A run in which the question fails in the end fails for that. -/
theorem failsWith_report {failure : Failure}
    (h : (Report.Branch.ofProcess s.print s.signal (processNumber process)).failure = some failure) :
    (s.report config echo process).FailsWith (s.echoed echo) failure := by
  refine ⟨?_, ?_⟩
  · simp [Surroundings.report, Report.ofReplies, h]
  · rw [Report.Branch.complaint, Surroundings.echoed, Surroundings.report, Report.ofReplies]
    cases (Report.Branch.ofEcho s.print (Operation.echoed echo)).failure <;>
      simp [h, String.join, String.empty_append]

theorem stops_report : (s.report config echo process).Stops s echo process := by
  have hsignalled := signalled_report s config echo process
  have hnamed : ∀ n, n ∈ (s.report config echo process).signalled ↔
      process = .ok (.int n) ∧ -0x80000000 ≤ n ∧ n ≤ 0x7fffffff ∧
        (s.print (Report.processLine n)).fault = none := by
    intro n
    rw [hsignalled, List.mem_filter, Option.mem_toList, processNumber_toOption,
      Option.isNone_iff_eq_none, and_assoc, and_assoc]
  refine ⟨?_, hnamed, ?_, ?_, ?_⟩
  · rw [hsignalled]
    refine Nat.le_trans (List.length_filter_le _ _) ?_
    cases (processNumber process).toOption <;> simp
  · intro n reason hn hreason
    obtain ⟨hprocess, hlow, hhigh, hprinted⟩ := (hnamed n).mp hn
    have hnumber := processNumber_eq_ok.mpr ⟨hprocess, hlow, hhigh⟩
    refine failsWith_report s config echo _ ?_
    simp only [hnumber, Report.Branch.ofProcess, hprinted, hreason, Option.map_some]
  · rintro v rfl hnone
    cases hread : v.asInt32 with
    | ok n =>
      have hnumber : processNumber (.ok v) = .ok n := by
        rw [processNumber, Reply.readAs, hread]
        rfl
      rw [hsignalled, hnumber] at hnone
      cases hprinted : (s.print (Report.processLine n)).fault with
      | none => simp [Except.toOption, hprinted] at hnone
      | some fault =>
        refine .inr ⟨n, fault, rfl, hprinted, failsWith_report s config echo _ ?_⟩
        simp only [hnumber, Report.Branch.ofProcess, hprinted]
    | error mismatch =>
      refine .inl ⟨mismatch, rfl, failsWith_report s config echo _ ?_⟩
      rw [processNumber, Reply.readAs, hread]
      rfl
  · rintro failure rfl
    exact failsWith_report s config echo _ rfl

end

/-! ### Runs -/

/-- A course of events in which the program asks both questions before anything else happens, and
both are answered. -/
structure Course (config : Config) (moves : List Client.Move) (echo process : Reply) : Prop where
  asks : [(Operation.echo greeting).begins, pid.begins] <+: moves
  echo : (0, echo) ∈ (Client.ofConfig config).answers moves
  process : (1, process) ∈ (Client.ofConfig config).answers moves

/-- A number that is told is the data of a message with the tag of the question, which the server has
written on one of the connections. -/
theorem Course.told {config : Config} {moves : List Client.Move} {echo : Reply} {v : Value}
    (h : Course config moves echo (.ok v)) :
    ∃ k, Frame.Tells ((Client.ofConfig config).written k moves) ⟨pidEvent, v⟩ := by
  obtain ⟨event, k, htag, htells⟩ := Client.answer_told h.process
  obtain ⟨later, rfl⟩ := h.asks
  cases htag
  exact ⟨k, htells⟩

/-- A run that does not come to connect signals nobody. -/
theorem signalled_of_prepare {directory : String} {read : String → Except IoFault (List UInt8)}
    {arguments : List String} {report : Report}
    (h : prepare directory read arguments = .error report) : report.signalled = [] := by
  rw [prepare] at h
  split at h
  · cases h
    rfl
  · next inquiry _ =>
    cases h
    cases inquiry <;> rfl
  · split at h <;> cases h <;> rfl

/-- What the program comes to when it asks, it comes to in a course of events, unless it cannot tell
where it connects to. -/
theorem exists_course {s : Surroundings} {config : Config} {report : Report}
    (h : ask s config = some report) :
    ((s.print (Report.connectingLine config.socketPath)).fault ≠ none ∧ report.signalled = []) ∨
    ∃ moves echo process, Course config moves echo process ∧
      report = s.report config echo process := by
  obtain ⟨moves, hasks, hreplies⟩ :=
    Scenario.exists_moves config s.files [Operation.echo greeting, pid] s.script
  simp only [ask] at h
  split at h
  · next fault hfault =>
    cases h
    exact .inl ⟨by simp [hfault], rfl⟩
  · split at h
    · next echo process hresult =>
      obtain ⟨echo, hecho, rfl⟩ :=
        hreplies 0 (Operation.echo greeting) echo rfl (by rw [hresult]; rfl)
      obtain ⟨process, hprocess, rfl⟩ := hreplies 1 pid process rfl (by rw [hresult]; rfl)
      refine .inr ⟨moves, echo, process, ⟨hasks, hecho, hprocess⟩, ?_⟩
      rw [echoed_conclude, processNumber_conclude] at h
      exact (Option.some.inj h).symm
    · cases h

/-- A run of the program signals nobody before it asks, and then comes to what the two replies make
of it. In every course of events, in any order, one process at most is signalled: the one that the
reply names, which is a 32-bit integer, whatever became of the echo, if its number was printed. For
every other reply nobody is signalled, and the run fails. Data of the reply is that of a message with
its tag, which the server has written. -/
theorem signals_as_told (s : Surroundings) (arguments : List String) :
    (∀ report, run s arguments = some report →
      (prepare s.temporaryDirectory s.files.read arguments = .error report ∧
        report.signalled = []) ∨
      ∃ config, prepare s.temporaryDirectory s.files.read arguments = .ok config ∧
        ((s.print (Report.connectingLine config.socketPath)).fault ≠ none ∧
            report.signalled = [] ∨
          ∃ moves echo process, Course config moves echo process ∧
            report = s.report config echo process)) ∧
    ∀ config moves echo process, Course config moves echo process →
      (s.report config echo process).Stops s echo process ∧
        ∀ v, process = .ok v →
          ∃ k, Frame.Tells ((Client.ofConfig config).written k moves) ⟨pidEvent, v⟩ := by
  refine ⟨?_, ?_⟩
  · intro report h
    rw [run] at h
    cases hprepare : prepare s.temporaryDirectory s.files.read arguments with
    | error early =>
      rw [hprepare] at h
      cases h
      exact .inl ⟨rfl, signalled_of_prepare hprepare⟩
    | ok config =>
      rw [hprepare] at h
      exact .inr ⟨config, rfl, exists_course h⟩
  · intro config moves echo process hcourse
    refine ⟨stops_report s config echo process, ?_⟩
    rintro v rfl
    exact hcourse.told

/-- A directory of sockets with one server in it, which sends the text back and tells this number. -/
def demo (number : Int) : Surroundings where
  temporaryDirectory := "/tmp"
  files := Files.add [] "/tmp/demo.sock" (.socket true)
  script :=
    { on := [(echoEvent, [.reflect]), (pidEvent, [.send (Envelope.mk pidEvent (.int number)).toBytes])]
      hold := none
      release := [] }
  signal _ := none

theorem signals_as_told_demo :
    ∃ report, run (demo 4242) ["demo"] = some report ∧ report.signalled = [4242] ∧
      ∃ config moves echo, Course config moves echo (.ok (.int 4242)) ∧
        report = (demo 4242).report config echo (.ok (.int 4242)) ∧
        ∃ k, Frame.Tells ((Client.ofConfig config).written k moves) ⟨pidEvent, .int 4242⟩ := by
  obtain ⟨hends, hcourses⟩ := signals_as_told (demo 4242) ["demo"]
  have hrun : (run (demo 4242) ["demo"]).map (·.signalled) = some [4242] := by decide +kernel
  obtain ⟨report, hreport, hsignalled⟩ := Option.map_eq_some_iff.mp hrun
  have hsomebody : report.signalled ≠ [] := by simp [hsignalled]
  refine ⟨report, hreport, hsignalled, ?_⟩
  rcases hends report hreport with
    ⟨-, hnobody⟩ | ⟨config, -, ⟨-, hnobody⟩ | ⟨moves, echo, process, hcourse, hcomes⟩⟩
  · exact absurd hnobody hsomebody
  · exact absurd hnobody hsomebody
  · obtain ⟨hstops, htold⟩ := hcourses config moves echo process hcourse
    rw [hcomes] at hsignalled
    obtain ⟨rfl, -⟩ := (hstops.named 4242).mp (hsignalled ▸ List.mem_singleton_self 4242)
    exact ⟨config, moves, echo, hcourse, hcomes, htold _ rfl⟩

/-- A server that tells 0 has a group of processes signalled, to which the program belongs itself:
for the client 0 is an answer like any other, and nothing else looks at it before the signal is sent. -/
theorem group_signalled :
    ((Scenario.start (.ofPath "/tmp/demo.sock") (demo 0).files).run
        [Operation.echo greeting, pid] (demo 0).script).1.replies[1]? = some (some (.ok (.int 0))) ∧
    ¬∀ (s : Surroundings) (arguments : List String) (report : Report),
      run s arguments = some report → ∀ n ∈ report.signalled, 1 ≤ n := by
  refine ⟨?_, ?_⟩
  · have hnumber : ((Scenario.start (.ofPath "/tmp/demo.sock") (demo 0).files).run
        [Operation.echo greeting, pid] (demo 0).script).1.replies[1]?.map
          (·.bind fun reply => (processNumber reply).toOption) = some (some 0) := by
      decide +kernel
    obtain ⟨answer, hanswer, hnumber⟩ := Option.map_eq_some_iff.mp hnumber
    obtain ⟨reply, rfl, hnumber⟩ := Option.bind_eq_some_iff.mp hnumber
    rw [hanswer, (processNumber_toOption.mp hnumber).1]
  · intro hclaim
    have hrun : (run (demo 0) ["demo"]).map (·.signalled) = some [0] := by decide +kernel
    obtain ⟨report, hreport, hsignalled⟩ := Option.map_eq_some_iff.mp hrun
    have hone := hclaim (demo 0) ["demo"] report hreport 0 (hsignalled ▸ List.mem_singleton_self 0)
    exact absurd hone (by decide)

end Control

end EnvelopeClient
