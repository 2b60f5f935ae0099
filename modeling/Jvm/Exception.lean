/-!
# Exceptions of the machine

The exceptions that the machine raises itself, each with the class that it is
and the class above it. All of them are throwables of the bootstrap library.
-/

namespace Jvm

/-- An exception that the machine raises. -/
inductive ExceptionKind where
  | exception | runtimeException | error | nullPointerException | arithmeticException
  | indexOutOfBoundsException | arrayIndexOutOfBoundsException | stringIndexOutOfBoundsException
  | classCastException | negativeArraySizeException | arrayStoreException
  | illegalArgumentException | illegalThreadStateException | illegalMonitorStateException
  | cloneNotSupportedException | classNotFoundException | linkageError | noClassDefFoundError
  | unsatisfiedLinkError | incompatibleClassChangeError | noSuchFieldError | noSuchMethodError
  | abstractMethodError | instantiationError | virtualMachineError | outOfMemoryError
  | stackOverflowError
  deriving DecidableEq, Inhabited, Repr

namespace ExceptionKind

/-- Every kind; the class above a kind comes before it. -/
def all : List ExceptionKind :=
  [.exception, .runtimeException, .error, .nullPointerException, .arithmeticException,
    .indexOutOfBoundsException, .arrayIndexOutOfBoundsException,
    .stringIndexOutOfBoundsException, .classCastException, .negativeArraySizeException,
    .arrayStoreException, .illegalArgumentException, .illegalThreadStateException,
    .illegalMonitorStateException, .cloneNotSupportedException, .classNotFoundException,
    .linkageError, .noClassDefFoundError, .unsatisfiedLinkError, .incompatibleClassChangeError,
    .noSuchFieldError, .noSuchMethodError, .abstractMethodError, .instantiationError,
    .virtualMachineError, .outOfMemoryError, .stackOverflowError]

/-- Name of the class within its package. -/
def name : ExceptionKind → String
  | .exception => "Exception"
  | .runtimeException => "RuntimeException"
  | .error => "Error"
  | .nullPointerException => "NullPointerException"
  | .arithmeticException => "ArithmeticException"
  | .indexOutOfBoundsException => "IndexOutOfBoundsException"
  | .arrayIndexOutOfBoundsException => "ArrayIndexOutOfBoundsException"
  | .stringIndexOutOfBoundsException => "StringIndexOutOfBoundsException"
  | .classCastException => "ClassCastException"
  | .negativeArraySizeException => "NegativeArraySizeException"
  | .arrayStoreException => "ArrayStoreException"
  | .illegalArgumentException => "IllegalArgumentException"
  | .illegalThreadStateException => "IllegalThreadStateException"
  | .illegalMonitorStateException => "IllegalMonitorStateException"
  | .cloneNotSupportedException => "CloneNotSupportedException"
  | .classNotFoundException => "ClassNotFoundException"
  | .linkageError => "LinkageError"
  | .noClassDefFoundError => "NoClassDefFoundError"
  | .unsatisfiedLinkError => "UnsatisfiedLinkError"
  | .incompatibleClassChangeError => "IncompatibleClassChangeError"
  | .noSuchFieldError => "NoSuchFieldError"
  | .noSuchMethodError => "NoSuchMethodError"
  | .abstractMethodError => "AbstractMethodError"
  | .instantiationError => "InstantiationError"
  | .virtualMachineError => "VirtualMachineError"
  | .outOfMemoryError => "OutOfMemoryError"
  | .stackOverflowError => "StackOverflowError"

/-- The kind above; none stands for the root of all throwables. -/
def parent : ExceptionKind → Option ExceptionKind
  | .exception | .error => none
  | .runtimeException | .cloneNotSupportedException | .classNotFoundException => some .exception
  | .nullPointerException | .arithmeticException
  | .indexOutOfBoundsException | .classCastException
  | .negativeArraySizeException | .arrayStoreException
  | .illegalArgumentException | .illegalMonitorStateException => some .runtimeException
  | .arrayIndexOutOfBoundsException
  | .stringIndexOutOfBoundsException => some .indexOutOfBoundsException
  | .illegalThreadStateException => some .illegalArgumentException
  | .linkageError | .virtualMachineError => some .error
  | .noClassDefFoundError | .unsatisfiedLinkError
  | .incompatibleClassChangeError => some .linkageError
  | .noSuchFieldError | .noSuchMethodError
  | .abstractMethodError | .instantiationError => some .incompatibleClassChangeError
  | .outOfMemoryError | .stackOverflowError => some .virtualMachineError

/-- Internal name of the class. -/
def className (kind : ExceptionKind) : String := "java/lang/" ++ kind.name

/-- Internal name of the class above. -/
def superclassName (kind : ExceptionKind) : String :=
  kind.parent.elim "java/lang/Throwable" className

theorem mem_all (kind : ExceptionKind) : kind ∈ all := by cases kind <;> decide

end ExceptionKind

end Jvm
