import Syren.Common.Event
import Syren.Common.Signal
import Syren.Common.Table

/-! Arguments that are shown by the name of a constant. -/
namespace Syren

/-- The register of an argument of a row. -/
def rawOf (info : SyscallInfo) (i : Fin info.args.length) (ev : SyscallEvent) : UInt64 :=
  ev.args.get (i.castLE info.sixAtMost)

namespace Consts

/-- The name of the value in a list of constants. -/
def named (value : UInt64) (names : List (UInt64 × String)) : Option String :=
  (names.find? (·.1 = value)).map Prod.snd

def addressFamily (value : UInt64) : Option String := named value [
  (0, "AF_UNSPEC"), (1, "AF_UNIX"), (2, "AF_INET"), (10, "AF_INET6"), (15, "AF_KEY"),
  (16, "AF_NETLINK"), (17, "AF_PACKET"), (25, "AF_WANPIPE"), (27, "AF_IB"), (29, "AF_CAN"),
  (31, "AF_BLUETOOTH"), (38, "AF_ALG"), (40, "AF_VSOCK"), (44, "AF_XDP")]

def SOCK_NONBLOCK : UInt64 := 0o4000

def SOCK_CLOEXEC : UInt64 := 0o2000000

def socketType (value : UInt64) : Option (List Char) :=
  let base := named (value &&& ~~~(SOCK_CLOEXEC ||| SOCK_NONBLOCK)) [
    (1, "SOCK_STREAM"), (2, "SOCK_DGRAM"), (3, "SOCK_RAW"), (4, "SOCK_RDM"),
    (5, "SOCK_SEQPACKET"), (6, "SOCK_DCCP"), (10, "SOCK_PACKET")]
  base.map fun name => name.toList ++
    (if value &&& SOCK_CLOEXEC ≠ 0 then "|SOCK_CLOEXEC".toList else []) ++
    (if value &&& SOCK_NONBLOCK ≠ 0 then "|SOCK_NONBLOCK".toList else [])

def protocol (family value : UInt64) : Option String :=
  if family ∈ [0, 2, 10] then named value [
    (0, "IPPROTO_IP"), (1, "IPPROTO_ICMP"), (2, "IPPROTO_IGMP"), (6, "IPPROTO_TCP"),
    (17, "IPPROTO_UDP"), (41, "IPPROTO_IPV6"), (58, "IPPROTO_ICMPV6"), (132, "IPPROTO_SCTP"),
    (136, "IPPROTO_UDPLITE"), (255, "IPPROTO_RAW")]
  else none

def sockoptLevel (value : UInt64) : Option String := named value [
  (0, "SOL_IP"), (1, "SOL_SOCKET"), (6, "SOL_TCP"), (17, "SOL_UDP"), (41, "SOL_IPV6"),
  (58, "SOL_ICMPV6"), (132, "SOL_SCTP"), (255, "SOL_RAW"), (263, "SOL_PACKET"),
  (270, "SOL_NETLINK")]

def soSocket (value : UInt64) : Option String := named value [
  (1, "SO_DEBUG"), (2, "SO_REUSEADDR"), (3, "SO_TYPE"), (4, "SO_ERROR"), (5, "SO_DONTROUTE"),
  (6, "SO_BROADCAST"), (7, "SO_SNDBUF"), (8, "SO_RCVBUF"), (9, "SO_KEEPALIVE"),
  (10, "SO_OOBINLINE"), (11, "SO_NO_CHECK"), (12, "SO_PRIORITY"), (13, "SO_LINGER"),
  (14, "SO_BSDCOMPAT"), (15, "SO_REUSEPORT"), (16, "SO_PASSCRED"), (17, "SO_PEERCRED"),
  (18, "SO_RCVLOWAT"), (19, "SO_SNDLOWAT"), (20, "SO_RCVTIMEO"), (21, "SO_SNDTIMEO"),
  (25, "SO_BINDTODEVICE")]

def soTcp (value : UInt64) : Option String := named value [
  (1, "TCP_NODELAY"), (2, "TCP_MAXSEG"), (3, "TCP_CORK"), (4, "TCP_KEEPIDLE"),
  (5, "TCP_KEEPINTVL"), (6, "TCP_KEEPCNT"), (7, "TCP_SYNCNT"), (8, "TCP_LINGER2"),
  (9, "TCP_DEFER_ACCEPT"), (10, "TCP_WINDOW_CLAMP"), (11, "TCP_INFO"), (12, "TCP_QUICKACK"),
  (13, "TCP_CONGESTION")]

def soIp (value : UInt64) : Option String := named value [
  (1, "IP_TOS"), (2, "IP_TTL"), (3, "IP_HDRINCL"), (4, "IP_OPTIONS"), (8, "IP_PKTINFO"),
  (10, "IP_MTU_DISCOVER"), (11, "IP_RECVERR"), (14, "IP_MTU"), (15, "IP_FREEBIND"),
  (32, "IP_MULTICAST_IF"), (33, "IP_MULTICAST_TTL"), (34, "IP_MULTICAST_LOOP"),
  (35, "IP_ADD_MEMBERSHIP"), (36, "IP_DROP_MEMBERSHIP")]

def soIpv6 (value : UInt64) : Option String := named value [
  (16, "IPV6_MULTICAST_IF"), (18, "IPV6_MULTICAST_LOOP"), (20, "IPV6_ADD_MEMBERSHIP"),
  (26, "IPV6_V6ONLY"), (49, "IPV6_RECVPKTINFO"), (67, "IPV6_TCLASS")]

def sockoptName (level value : UInt64) : Option String :=
  if level = 1 then soSocket value
  else if level = 6 then soTcp value
  else if level = 0 then soIp value
  else if level = 41 then soIpv6 value
  else none

def render (syscall : String) (info : SyscallInfo) (i : Fin info.args.length)
    (ev : SyscallEvent) : Option (List Char) :=
  let raw := rawOf info i ev
  let name := (info.args.get i).name
  if syscall ∈ ["socket", "socketpair"] ∧ name = "family" then
    (addressFamily raw).map String.toList
  else if syscall ∈ ["socket", "socketpair"] ∧ name = "type" then socketType raw
  else if syscall ∈ ["socket", "socketpair"] ∧ name = "protocol" then
    (protocol ev.args[0]! raw).map String.toList
  else if syscall ∈ ["setsockopt", "getsockopt"] ∧ name = "level" then
    (sockoptLevel raw).map String.toList
  else if syscall ∈ ["setsockopt", "getsockopt"] ∧ name = "optname" then
    (sockoptName ev.args[1]! raw).map String.toList
  else if syscall ∈ ["kill", "tkill", "tgkill", "rt_sigaction", "rt_sigqueueinfo"] ∧
      name = "sig" then
    (signalName raw.toUInt32.toInt32).map String.toList
  else none

end Consts

end Syren
