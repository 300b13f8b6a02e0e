import Mathlib.Logic.Function.Basic
import WateRMQ.Lib.Block

/-!
# The configuration of the backend

The four setters of `BackLibWaterRMQ.c`. Each copies its strings into blocks that were allocated for
other strings, and a copy brings neither a terminator nor room.

The calls of `amqp_new_connection`, `amqp_socket_open` and `amqp_login` behind the copies are left
out: they do not write to the strings.

`lastWins_iff` says for which calls every field holds the last string passed for it. A field sees
only the strings that are passed for it (`copyStrings_eq_ok_iff`), and for one block this is the
general `readString_memcpys_iff`.
-/

namespace WateRMQ
namespace Backend

open CMem

/-- The `char *` members of `ConfigurationExchange`, `ConfigurationConnection`,
`ConfigurationLogin` and `ExceptionHandling`. -/
inductive Field
  | exchange
  | bindingKey
  | queue
  | hostname
  | host
  | username
  | password
  | loginExceptionMessage
  | openingChannelExceptionMessage
  | queueExceptionMessage
  | bindingExceptionMessage
  | consumingExceptionMessage
  | closingChannelExceptionMessage
  | closingConnectionExceptionMessage
  | endingConnectionExceptionMessage
  deriving DecidableEq

/-- The values of `amqp_sasl_method_enum`. -/
inductive AmqpSaslMethod
  | undefined
  | plain
  | external
  deriving DecidableEq

/-- The other members that the setters write. -/
structure Numbers where
  port : ℤ
  channel_max : ℤ
  frame_max : ℤ
  heartbeat : ℤ
  sasl_method : AmqpSaslMethod

/-- A configuration: the blocks behind the `char *` members, and the other members. -/
structure Configuration where
  blocks : Field → List UInt8
  numbers : Numbers

/-! ### The setters -/

/-- `memcpy(field, s, strlen(s))`, for one field after the other. -/
def copyStrings (strings : List (Field × CStr)) (blocks : Field → List UInt8) :
    Except Fault (Field → List UInt8) :=
  strings.foldlM (fun blocks p => do
    let block ← memcpy (blocks p.1) p.2.chars
    return Function.update blocks p.1 block) blocks

def configurationExchangeWateRMQPublic (c : Configuration)
    (exchange_name bindingKey queuename : CStr) : Except Fault Configuration := do
  let blocks ← copyStrings
    [(.exchange, exchange_name), (.bindingKey, bindingKey), (.queue, queuename)] c.blocks
  return { c with blocks := blocks }

def configurationConnectionWateRMQPublic (c : Configuration) (hostname : CStr) (port : ℤ) :
    Except Fault Configuration := do
  let blocks ← copyStrings [(.hostname, hostname)] c.blocks
  return { blocks := blocks, numbers := { c.numbers with port := port } }

def configurationExceptionMessageWateRMQPublic (c : Configuration)
    (loginExceptionMessage openingChannelExceptionMessage queueExceptionMessage
      bindingExceptionMessage consumingExceptionMessage closingChannelExceptionMessage
      closingConnectionExceptionMessage endingConnectionExceptionMessage : CStr) :
    Except Fault Configuration := do
  let blocks ← copyStrings
    [(.loginExceptionMessage, loginExceptionMessage),
      (.openingChannelExceptionMessage, openingChannelExceptionMessage),
      (.queueExceptionMessage, queueExceptionMessage),
      (.bindingExceptionMessage, bindingExceptionMessage),
      (.consumingExceptionMessage, consumingExceptionMessage),
      (.closingChannelExceptionMessage, closingChannelExceptionMessage),
      (.closingConnectionExceptionMessage, closingConnectionExceptionMessage),
      (.endingConnectionExceptionMessage, endingConnectionExceptionMessage)] c.blocks
  return { c with blocks := blocks }

def configurationLoginWateRMQPublic (c : Configuration) (v_host : CStr)
    (channel_max frame_max heartbeat : ℤ) (sasl_method : AmqpSaslMethod)
    (username password : CStr) : Except Fault Configuration := do
  let blocks ← copyStrings [(.host, v_host), (.username, username), (.password, password)] c.blocks
  return {
    blocks := blocks
    numbers := { c.numbers with
      channel_max := channel_max
      frame_max := frame_max
      heartbeat := heartbeat
      sasl_method := sasl_method } }

/-- A call of a setter. -/
inductive Setting
  | exchange (exchange_name bindingKey queuename : CStr)
  | connection (hostname : CStr) (port : ℤ)
  | exceptionMessage
    (loginExceptionMessage openingChannelExceptionMessage queueExceptionMessage
      bindingExceptionMessage consumingExceptionMessage closingChannelExceptionMessage
      closingConnectionExceptionMessage endingConnectionExceptionMessage : CStr)
  | login (v_host : CStr) (channel_max frame_max heartbeat : ℤ) (sasl_method : AmqpSaslMethod)
    (username password : CStr)

namespace Setting

def run (c : Configuration) : Setting → Except Fault Configuration
  | .exchange exchange_name bindingKey queuename =>
    configurationExchangeWateRMQPublic c exchange_name bindingKey queuename
  | .connection hostname port => configurationConnectionWateRMQPublic c hostname port
  | .exceptionMessage m₁ m₂ m₃ m₄ m₅ m₆ m₇ m₈ =>
    configurationExceptionMessageWateRMQPublic c m₁ m₂ m₃ m₄ m₅ m₆ m₇ m₈
  | .login v_host channel_max frame_max heartbeat sasl_method username password =>
    configurationLoginWateRMQPublic c v_host channel_max frame_max heartbeat sasl_method username
      password

/-- The strings that a call passes, each with the field that it is for. -/
def strings : Setting → List (Field × CStr)
  | .exchange exchange_name bindingKey queuename =>
    [(.exchange, exchange_name), (.bindingKey, bindingKey), (.queue, queuename)]
  | .connection hostname _ => [(.hostname, hostname)]
  | .exceptionMessage m₁ m₂ m₃ m₄ m₅ m₆ m₇ m₈ =>
    [(.loginExceptionMessage, m₁), (.openingChannelExceptionMessage, m₂),
      (.queueExceptionMessage, m₃), (.bindingExceptionMessage, m₄),
      (.consumingExceptionMessage, m₅), (.closingChannelExceptionMessage, m₆),
      (.closingConnectionExceptionMessage, m₇), (.endingConnectionExceptionMessage, m₈)]
  | .login v_host _ _ _ _ username password =>
    [(.host, v_host), (.username, username), (.password, password)]

/-- What a call makes of the other members. -/
def numbers : Setting → Numbers → Numbers
  | .exchange .., numbers => numbers
  | .connection _ port, numbers => { numbers with port := port }
  | .exceptionMessage .., numbers => numbers
  | .login _ channel_max frame_max heartbeat sasl_method _ _, numbers =>
    { numbers with
      channel_max := channel_max
      frame_max := frame_max
      heartbeat := heartbeat
      sasl_method := sasl_method }

end Setting

/-- Calls of the setters, one after the other. -/
def configure (calls : List Setting) (c : Configuration) : Except Fault Configuration :=
  calls.foldlM Setting.run c

/-- What the constructors leave: for each field a block of the length of its string, with the string
and the terminator. -/
def created (init : Field → CStr) (numbers : Numbers) : Configuration :=
  ⟨fun f => (init f).bytes, numbers⟩

/-- The strings that are for a field, in their order. -/
def stringsFor (f : Field) (strings : List (Field × CStr)) : List CStr :=
  strings.filterMap fun p => if p.1 = f then some p.2 else none

/-- The strings that the calls pass for a field. -/
def passed (f : Field) (calls : List Setting) : List CStr :=
  stringsFor f (calls.flatMap Setting.strings)

/-- **The last configuration wins**: no call writes outside a block, and afterwards every field is
the string passed by the last call that set it, or the initial string. -/
def LastWins (init : Field → CStr) (numbers : Numbers) (calls : List Setting) : Prop :=
  ∃ c, configure calls (created init numbers) = .ok c ∧
    ∀ f, readString (c.blocks f) = .ok (lastString (init f) (passed f calls)).chars

/-! ### One field -/

variable {strings : List (Field × CStr)} {blocks blocks' : Field → List UInt8}

theorem stringsFor_cons_self (f : Field) (s : CStr) (strings : List (Field × CStr)) :
    stringsFor f ((f, s) :: strings) = s :: stringsFor f strings :=
  List.filterMap_cons_some (if_pos rfl)

theorem stringsFor_cons_of_ne {f g : Field} (h : g ≠ f) (s : CStr)
    (strings : List (Field × CStr)) :
    stringsFor f ((g, s) :: strings) = stringsFor f strings :=
  List.filterMap_cons_none (if_neg h)

/-- **A field sees only the strings that are for it.** -/
theorem copyStrings_eq_ok_iff : copyStrings strings blocks = .ok blocks' ↔
    ∀ f, memcpys (blocks f) (stringsFor f strings) = .ok (blocks' f) := by
  induction strings generalizing blocks with
  | nil =>
    refine ⟨?_, ?_⟩
    · intro h f
      obtain rfl := Except.ok.inj h
      rfl
    · intro h
      exact congrArg Except.ok (funext fun f => Except.ok.inj (h f))
  | cons p strings ih =>
    obtain ⟨g, s⟩ := p
    rw [copyStrings, List.foldlM_cons]
    cases h_copy : memcpy (blocks g) s.chars with
    | error fault =>
      -- the copy faults, and so does the field's own run
      refine iff_of_false (fun h => by cases h) fun h => ?_
      have h_g := h g
      rw [stringsFor_cons_self, memcpys, List.foldlM_cons, h_copy] at h_g
      cases h_g
    | ok block =>
      refine Iff.trans (b := ∀ f, memcpys (Function.update blocks g block f)
        (stringsFor f strings) = .ok (blocks' f)) ih (forall_congr' fun f => ?_)
      by_cases h_f : f = g
      · subst h_f
        rw [stringsFor_cons_self, memcpys, memcpys, List.foldlM_cons, h_copy, Function.update_self]
        rfl
      · rw [stringsFor_cons_of_ne (Ne.symm h_f), Function.update_of_ne h_f]

/-! ### Runs -/

variable {init : Field → CStr} {numbers : Numbers} {calls : List Setting} {c c' : Configuration}

/-- A call copies its strings, and sets the other members. -/
theorem Setting.run_eq (call : Setting) (c : Configuration) :
    call.run c = copyStrings call.strings c.blocks >>= fun blocks =>
      .ok ⟨blocks, call.numbers c.numbers⟩ := by
  cases call <;> rfl

theorem copyStrings_append (strings strings' : List (Field × CStr)) (blocks : Field → List UInt8) :
    copyStrings (strings ++ strings') blocks =
      copyStrings strings blocks >>= copyStrings strings' :=
  List.foldlM_append

/-- A run copies the strings of all its calls. -/
theorem configure_eq_ok_iff : configure calls c = .ok c' ↔
    copyStrings (calls.flatMap Setting.strings) c.blocks = .ok c'.blocks ∧
      c'.numbers = calls.foldl (fun numbers call => call.numbers numbers) c.numbers := by
  induction calls generalizing c with
  | nil =>
    obtain ⟨blocks, numbers⟩ := c
    obtain ⟨blocks', numbers'⟩ := c'
    simp [configure, copyStrings, pure, Except.pure, eq_comm]
  | cons call calls ih =>
    rw [configure, List.foldlM_cons, List.flatMap_cons, copyStrings_append, Setting.run_eq]
    -- the strings of the first call are copied first; a fault there is the fault of the run
    cases h_copy : copyStrings call.strings c.blocks with
    | error fault =>
      refine iff_of_false ?_ ?_
      · exact fun h => nomatch h
      · exact fun h => nomatch h.1
    | ok blocks => exact ih

/-- **When the last configuration wins**: for every field no string is longer than the initial one,
and the last one is just as long. -/
theorem lastWins_iff : LastWins init numbers calls ↔
    ∀ f, (∀ s ∈ passed f calls, s.length ≤ (init f).length) ∧
      (lastString (init f) (passed f calls)).length = (init f).length := by
  have h_fields : LastWins init numbers calls ↔ ∀ f, ∃ block,
      memcpys (init f).bytes (passed f calls) = .ok block ∧
        readString block = .ok (lastString (init f) (passed f calls)).chars := by
    refine ⟨?_, ?_⟩
    -- the run on all blocks is a run on each of them
    · rintro ⟨c, h_run, h_read⟩ f
      exact ⟨c.blocks f, copyStrings_eq_ok_iff.mp (configure_eq_ok_iff.mp h_run).1 f, h_read f⟩
    · -- the blocks of all fields together
      intro h
      choose blocks h_run h_read using h
      exact ⟨⟨blocks, _⟩, configure_eq_ok_iff.mpr ⟨copyStrings_eq_ok_iff.mpr h_run, rfl⟩, h_read⟩
  rw [h_fields]
  exact forall_congr' fun f => readString_memcpys_iff

/-- The string `abc`. -/
def strAbc : CStr := ⟨[97, 98, 99], by decide⟩

/-- The string `x`. -/
def strX : CStr := ⟨[120], by decide⟩

/-- Where all strings are `abc` at first. -/
def allAbc : Configuration := created (fun _ => strAbc) ⟨5672, 0, 131072, 0, .plain⟩

/-- The string `x` over the string `abc` reads as `xbc`, and a string of six characters does not
stay inside the block. -/
theorem shorter_string_mixed :
    (∃ c, configure [.exchange strX strAbc strAbc] allAbc = .ok c ∧
      readString (c.blocks .exchange) = .ok [120, 98, 99]) ∧
    ¬ LastWins (fun _ => strAbc) ⟨5672, 0, 131072, 0, .plain⟩ [.exchange strX strAbc strAbc] ∧
    configure [.exchange (strAbc ++ strAbc) strAbc strAbc] allAbc = .error .outOfBounds := by
  refine ⟨⟨_, rfl, rfl⟩, ?_, rfl⟩
  -- the last string passed for `exchange` is `x`
  rintro ⟨c, h_run, h_read⟩
  obtain rfl := Except.ok.inj h_run
  have h_exchange : (Except.ok [120, 98, 99] : Except Fault (List UInt8)) = .ok [120] :=
    h_read .exchange
  cases h_exchange

end Backend
end WateRMQ
