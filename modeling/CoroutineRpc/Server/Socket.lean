import CoroutineRpc.Coroutine.FdLayer
import CoroutineRpc.Library.Indexed
import CoroutineRpc.Library.Text

/-! The `Socket` objects of a process and the descriptors under them. A call that may suspend its
fiber is cut there, so that other fibers can use the same object meanwhile. -/
namespace CoroutineRpc.Server
open Coroutine Text

/-- `AF_UNIX`. -/
def afUnix : Int := 1

/-- An `Address` as a socket uses it; a `UnixAddress` has the family of one. -/
structure SockAddr where
  family : Int
  isUnix : Bool
  bytes : ByteString
  unix_family : isUnix = true → family = afUnix
  deriving DecidableEq

inductive SocketType where
  | tcp
  | udp
  deriving DecidableEq

/-- The members of a `Socket`, or of an `SSLSocket`; -1 is `none`. -/
structure Socket where
  sock : Option Nat := none
  family : Int
  type : SocketType
  isConnected : Bool := false
  localAddress : Option SockAddr := none
  remoteAddress : Option SockAddr := none
  ssl : Bool := false
  deriving DecidableEq

/-- Where a fiber waits: `connect` of an object, `connect` of the object with which `bind` tries a
Unix path, or `accept`, which has made an object for the client that nobody else knows. -/
inductive Waiting (κ : Type) where
  | connecting (c : κ)
  | probing (c tmp : κ)
  | accepting (client : Socket)
  deriving DecidableEq

/-- The live objects, the descriptors and the fibers. `foreign` marks the descriptors that other code
has opened, and `badCloses` records the numbers that an object closed when nothing was open there. -/
structure World (ι κ : Type) where
  object : κ → Option Socket := fun _ => none
  table : Nat → Descriptor := fun _ => {}
  waiting : ι → Option (Waiting κ) := fun _ => none
  foreign : Nat → Bool := fun _ => false
  badCloses : List Nat := []

/-- What a call of the kernel about names finds: `getsockname`, `getpeername`. -/
structure Names where
  sockname : Option SockAddr
  peername : Option SockAddr

/-- The operations with what the kernel answers; `fresh` is what `socket` returns. Other code uses
the hook layer with numbers of its own. -/
inductive SocketAction (ι κ : Type) where
  | create (c : κ) (family : Int) (type : SocketType) (ssl : Bool)
  | createUDP (c : κ) (family : Int) (hookEnable : Bool) (fresh : Option Nat)
  | bind (i : ι) (c : κ) (addr : SockAddr) (hookEnable : Bool) (fresh : Option Nat) (tmp : κ)
      (tmpFresh : Option Nat) (ok : Bool) (names : Names)
  | probed (i : ι) (hookEnable : Bool) (answered : Bool) (ok : Bool) (names : Names)
  | connect (i : ι) (c : κ) (addr : SockAddr) (hookEnable : Bool) (fresh : Option Nat)
  | reconnect (i : ι) (c : κ) (hookEnable : Bool) (fresh : Option Nat)
  | connected (i : ι) (hookEnable : Bool) (ok : Bool) (names : Names)
  | accept (i : ι) (c : κ)
  | accepted (i : ι) (client : κ) (hookEnable : Bool) (newsock : Option Nat) (names : Names)
      (handshake : Bool)
  | close (c : κ) (hookEnable : Bool)
  | destroy (c : κ) (hookEnable : Bool)
  | other (fd : Nat) (call : LayerCall)

/-- `Socket::getLocalAddress`. -/
def Socket.getLocalAddress (o : Socket) (names : Names) : Socket :=
  { o with localAddress := o.localAddress.or names.sockname }

/-- `Socket::getRemoteAddress`. -/
def Socket.getRemoteAddress (o : Socket) (names : Names) : Socket :=
  { o with remoteAddress := o.remoteAddress.or names.peername }

namespace World
variable {ι κ : Type} [DecidableEq κ]

def put (w : World ι κ) (c : κ) (o : Option Socket) : World ι κ :=
  { w with object := Function.update w.object c o }

/-- The number that a live object holds. -/
def held (w : World ι κ) (c : κ) : Option Nat := (w.object c).bind Socket.sock

/-- A call of the hook layer on a descriptor number. -/
def perform (k : Settable) (w : World ι κ) (fd : Nat) (call : LayerCall) : Option (World ι κ) :=
  (Transition.indexed (Descriptor.step k) w.table (fd, call)).map (fun table =>
    { w with table := table })

/-- `Socket::newSock`; the options of `initSock` are none of the timeouts. -/
def newSock (k : Settable) (w : World ι κ) (c : κ) (o : Socket) (hookEnable : Bool) :
    Option Nat → Option (World ι κ)
  | none => some (w.put c (some { o with sock := none }))
  | some fd =>
    (w.perform k fd (.socket hookEnable 0#32)).map (fun w =>
      w.put c (some { o with sock := some fd }))

/-- `if(!isValid()) newSock()`. -/
def validate (k : Settable) (w : World ι κ) (c : κ) (o : Socket) (hookEnable : Bool)
    (fresh : Option Nat) : Option (World ι κ) :=
  if o.sock.isSome then some (w.put c (some o)) else w.newSock k c o hookEnable fresh

/-- `::close` on a number that an object holds. -/
def closeFd (k : Settable) (w : World ι κ) (fd : Nat) (hookEnable : Bool) : Option (World ι κ) :=
  (w.perform k fd (.close hookEnable)).map (fun v =>
    if (w.table fd).file.isSome then v else { v with badCloses := fd :: v.badCloses })

/-- `Socket::close`. -/
def close (k : Settable) (w : World ι κ) (c : κ) (o : Socket) (hookEnable : Bool) :
    Option (World ι κ) :=
  match o.sock with
  | none => some (w.put c (some { o with isConnected := false }))
  | some fd =>
    (w.closeFd k fd hookEnable).map (fun w =>
      w.put c (some { o with isConnected := false, sock := none }))

/-- `Socket::~Socket`. -/
def destroy (k : Settable) (w : World ι κ) (c : κ) (o : Socket) (hookEnable : Bool) :
    Option (World ι κ) :=
  (w.close k c o hookEnable).map (fun w => w.put c none)

/-- The end of `Socket::bind`: `::bind` and `getLocalAddress`. -/
def bound (w : World ι κ) (c : κ) (ok : Bool) (names : Names) : World ι κ :=
  match w.object c with
  | some o => if ok && o.sock.isSome then w.put c (some (o.getLocalAddress names)) else w
  | none => w

/-- What other code does with a number; it closes only what it has opened. -/
def other (k : Settable) (w : World ι κ) (fd : Nat) (call : LayerCall) : Option (World ι κ) :=
  match call with
  | .close _ =>
    if w.foreign fd then
      (w.perform k fd call).map (fun w =>
        { w with foreign := Function.update w.foreign fd false })
    else none
  | .socket _ _ | .accept _ =>
    (w.perform k fd call).map (fun w => { w with foreign := Function.update w.foreign fd true })
  | _ => w.perform k fd call

variable [DecidableEq ι]

def setWaiting (w : World ι κ) (i : ι) (x : Option (Waiting κ)) : World ι κ :=
  { w with waiting := Function.update w.waiting i x }

/-- `Socket::bind`, up to the `connect` that tries a Unix path. -/
def bind (k : Settable) (w : World ι κ) (i : ι) (c : κ) (addr : SockAddr) (hookEnable : Bool)
    (fresh : Option Nat) (tmp : κ) (tmpFresh : Option Nat) (ok : Bool) (names : Names) :
    Option (World ι κ) :=
  (w.object c).bind fun o =>
    (w.validate k c o hookEnable fresh).bind fun w =>
      if addr.family ≠ o.family then some w
      else if addr.isUnix then
        if (w.object tmp).isSome then none
        else match tmpFresh with
          | none => some (w.bound c ok names)
          | some _ =>
            (w.newSock k tmp { family := afUnix, type := .tcp, remoteAddress := some addr }
              hookEnable tmpFresh).map (fun w => w.setWaiting i (some (.probing c tmp)))
      else some (w.bound c ok names)

/-- `Socket::connect`, up to the call of `::connect`. -/
def connect (k : Settable) (w : World ι κ) (i : ι) (c : κ) (o : Socket) (addr : SockAddr)
    (hookEnable : Bool) (fresh : Option Nat) : Option (World ι κ) :=
  let o := { o with remoteAddress := some addr }
  (w.validate k c o hookEnable fresh).map (fun w =>
    if (o.sock.or fresh).isSome ∧ addr.family = o.family then w.setWaiting i (some (.connecting c))
    else w)

/-- `Socket::init` on the number that `::accept` returned; the context must be there. -/
def init (w : World ι κ) (client : κ) (o : Socket) (fd : Nat) (names : Names) :
    Option (World ι κ) :=
  if (w.table fd).socketCtx.isSome then
    some (w.put client (some
      (({ o with sock := some fd, isConnected := true }.getLocalAddress names).getRemoteAddress
        names)))
  else none

/-- `Socket::accept` and `SSLSocket::accept` from the return of `::accept` on. -/
def accepted (k : Settable) (w : World ι κ) (client : κ) (o : Socket) (hookEnable : Bool)
    (newsock : Option Nat) (names : Names) (handshake : Bool) : Option (World ι κ) :=
  match newsock with
  | none => some w
  | some fd =>
    (w.perform k fd (.accept hookEnable)).bind fun w =>
      match w.init client o fd names with
      | none => some w
      | some v =>
        if o.ssl && !handshake then
          (v.object client).bind fun o => v.destroy k client o hookEnable
        else some v

def step (k : Settable) (w : World ι κ) : SocketAction ι κ → Option (World ι κ)
  | .create c family type ssl =>
    if (w.object c).isSome then none
    else some (w.put c (some { family := family, type := type, ssl := ssl }))
  | .createUDP c family hookEnable fresh =>
    if (w.object c).isSome then none
    else w.newSock k c { family := family, type := .udp, isConnected := true } hookEnable fresh
  | .bind i c addr hookEnable fresh tmp tmpFresh ok names =>
    if (w.waiting i).isSome then none
    else w.bind k i c addr hookEnable fresh tmp tmpFresh ok names
  | .probed i hookEnable answered ok names =>
    match w.waiting i with
    | some (.probing c tmp) =>
      (w.object tmp).bind fun o =>
        ((w.setWaiting i none).destroy k tmp o hookEnable).map (fun w =>
          if answered then w else w.bound c ok names)
    | _ => none
  | .connect i c addr hookEnable fresh =>
    if (w.waiting i).isSome then none
    else (w.object c).bind fun o => w.connect k i c o addr hookEnable fresh
  | .reconnect i c hookEnable fresh =>
    if (w.waiting i).isSome then none
    else (w.object c).bind fun o =>
      match o.remoteAddress with
      | none => some w
      | some addr => w.connect k i c { o with localAddress := none } addr hookEnable fresh
  | .connected i hookEnable ok names =>
    match w.waiting i with
    | some (.connecting c) =>
      (w.object c).bind fun o =>
        let w := w.setWaiting i none
        if ok then
          some (w.put c (some
            (({ o with isConnected := true }.getRemoteAddress names).getLocalAddress names)))
        else w.close k c o hookEnable
    | _ => none
  | .accept i c =>
    if (w.waiting i).isSome then none
    else (w.object c).map (fun o =>
      w.setWaiting i (some (.accepting { family := o.family, type := o.type, ssl := o.ssl })))
  | .accepted i client hookEnable newsock names handshake =>
    match w.waiting i with
    | some (.accepting o) =>
      if (w.object client).isSome then none
      else (w.setWaiting i none).accepted k client o hookEnable newsock names handshake
    | _ => none
  | .close c hookEnable => (w.object c).bind fun o => w.close k c o hookEnable
  | .destroy c hookEnable => (w.object c).bind fun o => w.destroy k c o hookEnable
  | .other fd call => w.other k fd call

end World
end CoroutineRpc.Server
