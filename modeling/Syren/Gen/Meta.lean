import Syren.Common.Table

/-! Typed arguments of the most common syscalls. -/
namespace Syren.Gen

/-- The prototype of a syscall. -/
structure SyscallMeta where
  name : String
  args : List ArgInfo
  sixAtMost : args.length ≤ 6 := by decide

def syscallMeta (name : String) (args : List (String × ArgType))
    (h : (args.map fun a => ArgInfo.mk a.1 a.2).length ≤ 6 := by decide) : SyscallMeta :=
  ⟨name, args.map fun a => ⟨a.1, a.2⟩, h⟩

def METADATA : List SyscallMeta := [
  syscallMeta "read" [("fd", .Fd), ("buf", .Buf), ("count", .Size)],
  syscallMeta "write" [("fd", .Fd), ("buf", .Buf), ("count", .Size)],
  syscallMeta "pread64" [("fd", .Fd), ("buf", .Buf), ("count", .Size), ("pos", .Offset)],
  syscallMeta "pwrite64" [("fd", .Fd), ("buf", .Buf), ("count", .Size), ("pos", .Offset)],
  syscallMeta "readv" [("fd", .Fd), ("iov", .Ptr), ("iovcnt", .Int)],
  syscallMeta "writev" [("fd", .Fd), ("iov", .Ptr), ("iovcnt", .Int)],
  syscallMeta "open" [("filename", .Path), ("flags", .Flags), ("mode", .Int)],
  syscallMeta "openat" [("dfd", .Fd), ("filename", .Path), ("flags", .Flags), ("mode", .Int)],
  syscallMeta "creat" [("pathname", .Path), ("mode", .Int)],
  syscallMeta "close" [("fd", .Fd)],
  syscallMeta "lseek" [("fd", .Fd), ("offset", .Offset), ("whence", .Int)],
  syscallMeta "dup" [("fildes", .Fd)],
  syscallMeta "dup2" [("oldfd", .Fd), ("newfd", .Fd)],
  syscallMeta "dup3" [("oldfd", .Fd), ("newfd", .Fd), ("flags", .Flags)],
  syscallMeta "pipe" [("filedes", .Ptr)],
  syscallMeta "pipe2" [("filedes", .Ptr), ("flags", .Flags)],
  syscallMeta "fcntl" [("fd", .Fd), ("cmd", .Int), ("arg", .Hex)],
  syscallMeta "ioctl" [("fd", .Fd), ("request", .Hex), ("arg", .Hex)],
  syscallMeta "getdents64" [("fd", .Fd), ("dirent", .Ptr), ("count", .Size)],
  syscallMeta "fsync" [("fd", .Fd)],
  syscallMeta "fdatasync" [("fd", .Fd)],
  syscallMeta "ftruncate" [("fd", .Fd), ("length", .Offset)],
  syscallMeta "truncate" [("path", .Path), ("length", .Offset)],
  syscallMeta "stat" [("filename", .Path), ("statbuf", .Ptr)],
  syscallMeta "lstat" [("filename", .Path), ("statbuf", .Ptr)],
  syscallMeta "fstat" [("fd", .Fd), ("statbuf", .Ptr)],
  syscallMeta "newfstatat" [("dfd", .Fd), ("filename", .Path), ("statbuf", .Ptr),
    ("flag", .Flags)],
  syscallMeta "statx" [("dfd", .Fd), ("path", .Path), ("flags", .Flags), ("mask", .Uint),
    ("buf", .Ptr)],
  syscallMeta "access" [("filename", .Path), ("mode", .Int)],
  syscallMeta "faccessat" [("dfd", .Fd), ("filename", .Path), ("mode", .Int)],
  syscallMeta "faccessat2" [("dfd", .Fd), ("filename", .Path), ("mode", .Int), ("flags", .Flags)],
  syscallMeta "readlink" [("path", .Path), ("buf", .Buf), ("bufsiz", .Size)],
  syscallMeta "readlinkat" [("dfd", .Fd), ("path", .Path), ("buf", .Buf), ("bufsiz", .Size)],
  syscallMeta "getcwd" [("buf", .Buf), ("size", .Size)],
  syscallMeta "chdir" [("filename", .Path)],
  syscallMeta "fchdir" [("fd", .Fd)],
  syscallMeta "rename" [("oldname", .Path), ("newname", .Path)],
  syscallMeta "renameat2" [("olddfd", .Fd), ("oldname", .Path), ("newdfd", .Fd),
    ("newname", .Path), ("flags", .Flags)],
  syscallMeta "mkdir" [("pathname", .Path), ("mode", .Int)],
  syscallMeta "mkdirat" [("dfd", .Fd), ("pathname", .Path), ("mode", .Int)],
  syscallMeta "rmdir" [("pathname", .Path)],
  syscallMeta "unlink" [("pathname", .Path)],
  syscallMeta "unlinkat" [("dfd", .Fd), ("pathname", .Path), ("flag", .Flags)],
  syscallMeta "symlink" [("oldname", .Path), ("newname", .Path)],
  syscallMeta "chmod" [("filename", .Path), ("mode", .Int)],
  syscallMeta "fchmod" [("fd", .Fd), ("mode", .Int)],
  syscallMeta "umask" [("mask", .Int)],
  syscallMeta "mmap" [("addr", .Ptr), ("len", .Size), ("prot", .Flags), ("flags", .Flags),
    ("fd", .Fd), ("off", .Offset)],
  syscallMeta "munmap" [("addr", .Ptr), ("len", .Size)],
  syscallMeta "mprotect" [("addr", .Ptr), ("len", .Size), ("prot", .Flags)],
  syscallMeta "mremap" [("addr", .Ptr), ("old_len", .Size), ("new_len", .Size), ("flags", .Flags),
    ("new_addr", .Ptr)],
  syscallMeta "brk" [("brk", .Ptr)],
  syscallMeta "madvise" [("addr", .Ptr), ("len", .Size), ("advice", .Int)],
  syscallMeta "execve" [("filename", .Path), ("argv", .Ptr), ("envp", .Ptr)],
  syscallMeta "execveat" [("dfd", .Fd), ("filename", .Path), ("argv", .Ptr), ("envp", .Ptr),
    ("flags", .Flags)],
  syscallMeta "clone" [("flags", .Flags), ("stack", .Ptr), ("parent_tid", .Ptr),
    ("child_tid", .Ptr), ("tls", .Hex)],
  syscallMeta "wait4" [("pid", .Int), ("stat_addr", .Ptr), ("options", .Flags), ("rusage", .Ptr)],
  syscallMeta "exit" [("status", .Int)],
  syscallMeta "exit_group" [("status", .Int)],
  syscallMeta "getpid" [],
  syscallMeta "getppid" [],
  syscallMeta "gettid" [],
  syscallMeta "set_tid_address" [("tidptr", .Ptr)],
  syscallMeta "set_robust_list" [("head", .Ptr), ("len", .Size)],
  syscallMeta "prctl" [("option", .Int), ("arg2", .Hex), ("arg3", .Hex), ("arg4", .Hex),
    ("arg5", .Hex)],
  syscallMeta "arch_prctl" [("code", .Int), ("addr", .Hex)],
  syscallMeta "rseq" [("rseq", .Ptr), ("rseq_len", .Uint), ("flags", .Flags), ("sig", .Uint)],
  syscallMeta "rt_sigaction" [("sig", .Int), ("act", .Ptr), ("oact", .Ptr),
    ("sigsetsize", .Size)],
  syscallMeta "rt_sigprocmask" [("how", .Int), ("set", .Ptr), ("oset", .Ptr),
    ("sigsetsize", .Size)],
  syscallMeta "kill" [("pid", .Int), ("sig", .Int)],
  syscallMeta "tgkill" [("tgid", .Int), ("pid", .Int), ("sig", .Int)],
  syscallMeta "socket" [("family", .Int), ("type", .Int), ("protocol", .Int)],
  syscallMeta "connect" [("fd", .Fd), ("uservaddr", .Ptr), ("addrlen", .Int)],
  syscallMeta "accept" [("fd", .Fd), ("upeer", .Ptr), ("upeer_addrlen", .Ptr)],
  syscallMeta "accept4" [("fd", .Fd), ("upeer", .Ptr), ("upeer_addrlen", .Ptr),
    ("flags", .Flags)],
  syscallMeta "bind" [("fd", .Fd), ("umyaddr", .Ptr), ("addrlen", .Int)],
  syscallMeta "listen" [("fd", .Fd), ("backlog", .Int)],
  syscallMeta "sendto" [("fd", .Fd), ("buff", .Buf), ("len", .Size), ("flags", .Flags),
    ("addr", .Ptr), ("addrlen", .Int)],
  syscallMeta "recvfrom" [("fd", .Fd), ("ubuf", .Buf), ("size", .Size), ("flags", .Flags),
    ("addr", .Ptr), ("addrlen", .Ptr)],
  syscallMeta "setsockopt" [("fd", .Fd), ("level", .Int), ("optname", .Int), ("optval", .Ptr),
    ("optlen", .Int)],
  syscallMeta "getsockopt" [("fd", .Fd), ("level", .Int), ("optname", .Int), ("optval", .Ptr),
    ("optlen", .Ptr)],
  syscallMeta "poll" [("ufds", .Ptr), ("nfds", .Uint), ("timeout", .Int)],
  syscallMeta "ppoll" [("ufds", .Ptr), ("nfds", .Uint), ("tsp", .Ptr), ("sigmask", .Ptr),
    ("sigsetsize", .Size)],
  syscallMeta "select" [("n", .Int), ("inp", .Ptr), ("outp", .Ptr), ("exp", .Ptr), ("tvp", .Ptr)],
  syscallMeta "epoll_create1" [("flags", .Flags)],
  syscallMeta "epoll_ctl" [("epfd", .Fd), ("op", .Int), ("fd", .Fd), ("event", .Ptr)],
  syscallMeta "epoll_wait" [("epfd", .Fd), ("events", .Ptr), ("maxevents", .Int),
    ("timeout", .Int)],
  syscallMeta "eventfd2" [("count", .Uint), ("flags", .Flags)],
  syscallMeta "nanosleep" [("rqtp", .Ptr), ("rmtp", .Ptr)],
  syscallMeta "clock_gettime" [("which_clock", .Int), ("tp", .Ptr)],
  syscallMeta "clock_nanosleep" [("which_clock", .Int), ("flags", .Flags), ("rqtp", .Ptr),
    ("rmtp", .Ptr)],
  syscallMeta "gettimeofday" [("tv", .Ptr), ("tz", .Ptr)],
  syscallMeta "futex" [("uaddr", .Ptr), ("op", .Flags), ("val", .Uint), ("utime", .Ptr),
    ("uaddr2", .Ptr), ("val3", .Uint)],
  syscallMeta "getrandom" [("buf", .Buf), ("count", .Size), ("flags", .Flags)]]

def lookup (name : String) : Option SyscallMeta := METADATA.find? (·.name = name)

end Syren.Gen
