import Syren.Common.Table

/-! The categories of syscalls: an explicit table, and prefixes for what it leaves out. -/
namespace Syren.Gen

def fsNames : List String := [
  "read", "write", "open", "openat", "openat2", "close", "close_range", "stat", "fstat", "lstat",
  "newfstatat", "statx", "lseek", "pread64", "pwrite64", "readv", "writev", "preadv", "pwritev",
  "preadv2", "pwritev2", "access", "faccessat", "faccessat2", "dup", "dup2", "dup3", "pipe",
  "pipe2", "getdents", "getdents64", "getcwd", "chdir", "fchdir", "rename", "renameat",
  "renameat2", "mkdir", "mkdirat", "rmdir", "creat", "link", "linkat", "unlink", "unlinkat",
  "symlink", "symlinkat", "readlink", "readlinkat", "chmod", "fchmod", "fchmodat", "chown",
  "fchown", "lchown", "fchownat", "umask", "truncate", "ftruncate", "fallocate", "fadvise64",
  "flock", "fsync", "fdatasync", "sync", "syncfs", "sync_file_range", "statfs", "fstatfs",
  "getxattr", "lgetxattr", "fgetxattr", "setxattr", "lsetxattr", "fsetxattr", "listxattr",
  "llistxattr", "flistxattr", "removexattr", "lremovexattr", "fremovexattr", "sendfile",
  "copy_file_range", "splice", "tee", "vmsplice", "fcntl", "mknod", "mknodat"]

def netNames : List String := [
  "socket", "socketpair", "bind", "listen", "accept", "accept4", "connect", "getsockname",
  "getpeername", "sendto", "recvfrom", "sendmsg", "recvmsg", "sendmmsg", "recvmmsg", "shutdown",
  "setsockopt", "getsockopt", "sethostname", "setdomainname"]

def memoryNames : List String := [
  "mmap", "munmap", "mremap", "mprotect", "brk", "msync", "mincore", "madvise", "mlock",
  "mlock2", "munlock", "mlockall", "munlockall", "mbind", "set_mempolicy", "get_mempolicy",
  "migrate_pages", "move_pages", "memfd_create", "memfd_secret", "pkey_alloc", "pkey_free",
  "pkey_mprotect", "remap_file_pages"]

def processNames : List String := [
  "clone", "clone3", "fork", "vfork", "execve", "execveat", "exit", "exit_group", "wait4",
  "waitid", "getpid", "getppid", "gettid", "set_tid_address", "set_robust_list",
  "get_robust_list", "unshare", "setns", "prctl", "arch_prctl", "personality", "getpgid",
  "setpgid", "getpgrp", "getsid", "setsid", "getpriority", "setpriority"]

def signalNames : List String := [
  "rt_sigaction", "rt_sigprocmask", "rt_sigreturn", "rt_sigpending", "rt_sigtimedwait",
  "rt_sigqueueinfo", "rt_tgsigqueueinfo", "rt_sigsuspend", "sigaltstack", "kill", "tkill",
  "tgkill", "pidfd_send_signal", "signalfd", "signalfd4", "pause", "restart_syscall"]

def ipcNames : List String := [
  "futex", "futex_waitv", "get_robust_list2", "eventfd", "eventfd2", "shmget", "shmat", "shmdt",
  "shmctl", "semget", "semop", "semtimedop", "semctl", "msgget", "msgsnd", "msgrcv", "msgctl",
  "mq_open", "mq_unlink", "mq_timedsend", "mq_timedreceive", "mq_notify", "mq_getsetattr",
  "process_vm_readv", "process_vm_writev", "pidfd_open", "pidfd_getfd"]

def timeNames : List String := [
  "nanosleep", "clock_nanosleep", "gettimeofday", "settimeofday", "time", "times", "getitimer",
  "setitimer", "alarm", "adjtimex", "clock_adjtime"]

def securityNames : List String := [
  "setuid", "setgid", "setreuid", "setregid", "setresuid", "setresgid", "setfsuid", "setfsgid",
  "getuid", "geteuid", "getgid", "getegid", "getresuid", "getresgid", "getgroups", "setgroups",
  "capget", "capset", "seccomp", "keyctl", "add_key", "request_key", "landlock_create_ruleset",
  "landlock_add_rule", "landlock_restrict_self"]

def systemNames : List String := [
  "ioctl", "uname", "sysinfo", "syslog", "reboot", "getrlimit", "setrlimit", "prlimit64",
  "getrusage", "sysctl", "_sysctl", "ptrace", "bpf", "perf_event_open", "kcmp", "getcpu",
  "sysfs", "ustat", "quotactl", "quotactl_fd"]

/-- Explicit overrides where prefixes would mislead. -/
def exact (name : String) : Option Category :=
  if name ∈ fsNames then some .Fs
  else if name ∈ netNames then some .Net
  else if name ∈ memoryNames then some .Memory
  else if name ∈ processNames then some .Process
  else if name ∈ signalNames then some .Signal
  else if name ∈ ipcNames then some .Ipc
  else if name ∈ timeNames then some .Time
  else if name ∈ securityNames then some .Security
  else if name ∈ systemNames then some .System
  else none

def RULES : List (String × Category) := [
  ("inotify", .Fs), ("fanotify", .Fs), ("epoll", .Fs), ("eventfd", .Ipc), ("io_uring", .Fs),
  ("io_", .Fs), ("aio_", .Fs), ("name_to_handle", .Fs), ("open_by_handle", .Fs),
  ("clock_", .Time), ("timer_", .Time), ("timerfd", .Time), ("sched_", .System),
  ("rt_sig", .Signal), ("sig", .Signal), ("sem", .Ipc), ("shm", .Ipc), ("msg", .Ipc),
  ("mq_", .Ipc), ("key", .Security), ("landlock", .Security), ("socket", .Net),
  ("get", .Process), ("set", .Process)]

/-- The fallback for the names that are not listed. -/
def byPrefix (name : String) : Option Category :=
  (RULES.find? fun rule => rule.1.toList.isPrefixOf name.toList).map Prod.snd

def categorize (name : String) : Category :=
  match exact name with
  | some cat => cat
  | none => (byPrefix name).getD .Other

end Syren.Gen
