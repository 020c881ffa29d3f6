import Net80211.Wpa.Job

/-!
# Connecting to a network

`wpa_port_connect_bssid`, `wpa_port_disconnect`, `wpa_do_connect` and `wpa_do_disconnect`
of `port/wpa/supp_main_freertos.c`, with `os_strlcpy` of `port/wpa/os_port.c`, over the
jobs of `Wpa.Job`: the request is checked and copied by the caller, and carried out by
the event loop.

Of the supplicant there is what these functions ask of it: whether it runs (`wpa_wpa_s`
is set and cleared by the thread of the event loop, outside of jobs), the networks and
the one that is selected. Its functions may fail, and so may the copies of the strings.
What `wpa_do_connect` sets to the same for every network is left out. `asked` is what
the caller of a job wanted and `ran` what the function of the job did; no code reads
them.
-/

namespace Net80211.Wpa

/-! ## Strings -/

/-- A string, without the octet that ends it. -/
structure CString where
  bytes : List UInt8
  noNul : 0 ∉ bytes

def CString.strlen (s : CString) : Nat := s.bytes.length

/-- The string in an array. -/
def cstr (buf : List UInt8) : List UInt8 := buf.takeWhile (· ≠ 0)

/-- `os_strlcpy` into an array of `siz` zero octets. -/
def strlcpy (siz : Nat) (src : CString) : List UInt8 :=
  let n := if src.strlen < siz - 1 then src.strlen else siz - 1
  src.bytes.take n ++ List.replicate (siz - n) 0

/-! ## The supplicant -/

/-- How a network is protected: by a passphrase that the key is derived from, or by the
key itself, in 64 digits. -/
inductive NetKey where
  | passphrase (s : List UInt8)
  | psk (digits : List UInt8)
  deriving DecidableEq, Repr

/-- `struct wpa_ssid`. -/
structure Network where
  ssid : List UInt8
  bssid : Option (List UInt8)
  key : NetKey
  deriving DecidableEq, Repr

structure Supp where
  started : Bool
  networks : List Network
  selected : Option Network
  deriving DecidableEq, Repr

/-- Which calls in `wpa_do_connect` succeed: `wpa_supplicant_add_network` and the two of
`os_strdup`. -/
structure ConnectEnv where
  addNetwork : Bool
  dupSsid : Bool
  dupPsk : Bool
  deriving DecidableEq, Repr

/-! ## The request -/

/-- `struct wpa_connect_req`. -/
structure ConnectReq where
  ssid : List UInt8
  psk : List UInt8
  bssid : List UInt8
  bssidSet : Bool
  deriving DecidableEq, Repr

/-- `sizeof(req.ssid)` and `sizeof(req.psk)`. -/
def reqSsidLen : Nat := 33
def reqPskLen : Nat := 65

/-- What a caller of `wpa_port_connect_bssid` wants. -/
structure ConnectAsked where
  ssid : CString
  psk : CString
  bssid : Option (List UInt8)

/-- The checks of `wpa_port_connect_bssid`. -/
def connectOk (started : Bool) (ssid psk : CString) : Bool :=
  !(!started || ssid.strlen == 0 || ssid.strlen ≥ reqSsidLen ||
    (psk.strlen != 0 && psk.strlen != 64 && psk.strlen < 8))

def connectReq (q : ConnectAsked) : ConnectReq :=
  { ssid := strlcpy reqSsidLen q.ssid
    psk := strlcpy reqPskLen q.psk
    bssid := q.bssid.getD (List.replicate 6 0)
    bssidSet := q.bssid.isSome }

/-- `wpa_do_connect`. A network that cannot be completed is removed again. -/
def wpaDoConnect (s : Supp) (req : ConnectReq) (env : ConnectEnv) : Supp :=
  if !s.started then s
  else
    -- wpas_request_disconnection
    let s := { s with selected := none }
    if !env.addNetwork || !env.dupSsid || !env.dupPsk then s
    else
      let ssid : Network :=
        { ssid := cstr req.ssid
          bssid := if req.bssidSet then some req.bssid else none
          key := .passphrase (cstr req.psk) }
      { s with networks := s.networks ++ [ssid], selected := some ssid }

/-- `wpa_do_disconnect`. -/
def wpaDoDisconnect (s : Supp) : Supp := if !s.started then s else { s with selected := none }

/-! ## The system -/

/-- The functions of jobs. -/
inductive JobFn where
  | connect
  | disconnect
  | status
  deriving DecidableEq, Repr

/-- The function of a job ran: the supplicant before and after it, and what succeeded. -/
structure JobRan where
  before : Supp
  env : ConnectEnv
  after : Supp
  deriving DecidableEq, Repr

structure Conn where
  jobs : Jobs JobFn ConnectReq
  supp : Supp
  asked : Nat → Option ConnectAsked
  ran : Nat → Option JobRan

inductive ConnOp where
  | connect (q : ConnectAsked) (calloc malloc : Bool)
  | disconnect (calloc : Bool)
  | status (calloc : Bool)
  | job (op : JobOp JobFn ConnectReq) (env : ConnectEnv)
  | supplicant (started : Bool)

/-- The function of a job. -/
def runJob (s : Supp) (job : Job JobFn ConnectReq) (env : ConnectEnv) : Supp :=
  match job.fn, job.arg with
  | .connect, some req => wpaDoConnect s req env
  | .disconnect, _ => wpaDoDisconnect s
  | _, _ => s

/-- The function of the job that the event loop is in comes to its end. -/
def leaveJob (s : Conn) (env : ConnectEnv) : Conn :=
  match s.jobs.worker with
  | .inFn j =>
    match s.jobs.calls j with
    | some c =>
      let after := runJob s.supp c.job env
      { s with supp := after, ran := Function.update s.ran j (some ⟨s.supp, env, after⟩) }
    | none => s
  | _ => s

/-- A step of `wpa_job_run` or of the event loop. -/
def jobOp (s : Conn) (op : JobOp JobFn ConnectReq) (env : ConnectEnv) : Option Conn :=
  match op, jobStep s.jobs op with
  | .call _ _ _ _ _, _ => none
  | _, none => none
  | .leave, some jobs => some { leaveJob s env with jobs := jobs }
  | _, some jobs => some { s with jobs := jobs }

/-- The public functions call `wpa_job_run` with a timeout of five seconds. -/
def callJob (s : Conn) (fn : JobFn) (arg : Option ConnectReq) (calloc malloc : Bool) :
    Option Conn :=
  (jobStep s.jobs (.call fn arg 5000 calloc malloc)).map fun jobs => { s with jobs := jobs }

def connStep (s : Conn) : ConnOp → Option Conn
  | .connect q calloc malloc =>
    if connectOk s.supp.started q.ssid q.psk then
      (callJob s .connect (some (connectReq q)) calloc malloc).map fun s' =>
        { s' with asked := Function.update s.asked s.jobs.next (some q) }
    else some s
  | .disconnect calloc => callJob s .disconnect none calloc true
  | .status calloc => callJob s .status none calloc true
  | .job op env => jobOp s op env
  | .supplicant started =>
    if s.jobs.worker = .loop then some { s with supp := { s.supp with started := started } }
      else none

def connInit (s : Conn) : Prop :=
  s.jobs = jobsInit ∧ s.asked = (fun _ => none) ∧ s.ran = fun _ => none

end Net80211.Wpa
