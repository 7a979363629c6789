/-!
# Error numbers of storage

The numbers with which opening, listing and writing fail, and the sentence that belongs to each.
-/

namespace CrossRef.Storage

/-- The reason for which storage refuses an operation. -/
structure Errno where
  number : Int
  deriving DecidableEq, Repr

namespace Errno

def notFound : Errno := ⟨2⟩

def denied : Errno := ⟨13⟩

def notDirectory : Errno := ⟨20⟩

def isDirectory : Errno := ⟨21⟩

/-- The reader of a stream has gone away. -/
def brokenPipe : Errno := ⟨32⟩

/-- The sentences, by number. -/
def sentences : List (Int × String) :=
  [(1, "Operation not permitted"), (2, "No such file or directory"), (3, "No such process"),
   (4, "Interrupted system call"), (5, "Input/output error"), (6, "No such device or address"),
   (7, "Argument list too long"), (8, "Exec format error"), (9, "Bad file descriptor"),
   (10, "No child processes"), (11, "Resource temporarily unavailable"),
   (12, "Cannot allocate memory"), (13, "Permission denied"), (14, "Bad address"),
   (15, "Block device required"), (16, "Device or resource busy"), (17, "File exists"),
   (18, "Invalid cross-device link"), (19, "No such device"), (20, "Not a directory"),
   (21, "Is a directory"), (22, "Invalid argument"), (23, "Too many open files in system"),
   (24, "Too many open files"), (25, "Inappropriate ioctl for device"), (26, "Text file busy"),
   (27, "File too large"), (28, "No space left on device"), (29, "Illegal seek"),
   (30, "Read-only file system"), (31, "Too many links"), (32, "Broken pipe"),
   (33, "Numerical argument out of domain"), (34, "Numerical result out of range"),
   (35, "Resource deadlock avoided"), (36, "File name too long"), (37, "No locks available"),
   (38, "Function not implemented"), (39, "Directory not empty"),
   (40, "Too many levels of symbolic links"), (61, "No data available"), (62, "Timer expired"),
   (71, "Protocol error"), (74, "Bad message"), (75, "Value too large for defined data type"),
   (77, "File descriptor in bad state"), (84, "Invalid or incomplete multibyte or wide character"),
   (95, "Operation not supported"), (100, "Network is down"), (101, "Network is unreachable"),
   (103, "Software caused connection abort"), (104, "Connection reset by peer"),
   (105, "No buffer space available"), (107, "Transport endpoint is not connected"),
   (108, "Cannot send after transport endpoint shutdown"), (110, "Connection timed out"),
   (111, "Connection refused"), (112, "Host is down"), (113, "No route to host"),
   (114, "Operation already in progress"), (115, "Operation now in progress"),
   (116, "Stale file handle"), (117, "Structure needs cleaning"), (121, "Remote I/O error"),
   (122, "Disk quota exceeded"), (123, "No medium found"), (124, "Wrong medium type"),
   (125, "Operation canceled")]

/-- The sentence for an error number. -/
def sentence (errno : Errno) : String :=
  (sentences.lookup errno.number).getD s!"Unknown error {errno.number}"

end Errno

end CrossRef.Storage
