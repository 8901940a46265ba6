import JniProbe.Lib.GoText

/-!
The generated tables of `jni_schema.go` and `jni_names.go`: one entry per slot
of `JNINativeInterface`, in slot order.
-/

namespace JniProbe

open GoText

structure JniFunc where
  name : Bytes
  args : List Bytes
  ret : Bytes

private def fn (name : String) (args : List String) (ret : String) : JniFunc :=
  ⟨str name, args.map str, str ret⟩

def jniSchema : List JniFunc := [
  fn "reserved0" [] "void",
  fn "reserved1" [] "void",
  fn "reserved2" [] "void",
  fn "reserved3" [] "void",
  fn "GetVersion" ["JNIEnv*"] "jint",
  fn "DefineClass" ["JNIEnv*", "char*", "jobject", "jbyte*", "jsize"] "jclass",
  fn "FindClass" ["JNIEnv*", "char*"] "jclass",
  fn "FromReflectedMethod" ["JNIEnv*", "jobject"] "jmethodID",
  fn "FromReflectedField" ["JNIEnv*", "jobject"] "jfieldID",
  fn "ToReflectedMethod" ["JNIEnv*", "jclass", "jmethodID", "jboolean"] "jobject",
  fn "GetSuperclass" ["JNIEnv*", "jclass"] "jclass",
  fn "IsAssignableFrom" ["JNIEnv*", "jclass", "jclass"] "jboolean",
  fn "ToReflectedField" ["JNIEnv*", "jclass", "jfieldID", "jboolean"] "jobject",
  fn "Throw" ["JNIEnv*", "jthrowable"] "jint",
  fn "ThrowNew" ["JNIEnv*", "jclass", "char*"] "jint",
  fn "ExceptionOccurred" ["JNIEnv*"] "jthrowable",
  fn "ExceptionDescribe" ["JNIEnv*"] "void",
  fn "ExceptionClear" ["JNIEnv*"] "void",
  fn "FatalError" ["JNIEnv*", "char*"] "void",
  fn "PushLocalFrame" ["JNIEnv*", "jint"] "jint",
  fn "PopLocalFrame" ["JNIEnv*", "jobject"] "jobject",
  fn "NewGlobalRef" ["JNIEnv*", "jobject"] "jobject",
  fn "DeleteGlobalRef" ["JNIEnv*", "jobject"] "void",
  fn "DeleteLocalRef" ["JNIEnv*", "jobject"] "void",
  fn "IsSameObject" ["JNIEnv*", "jobject", "jobject"] "jboolean",
  fn "NewLocalRef" ["JNIEnv*", "jobject"] "jobject",
  fn "EnsureLocalCapacity" ["JNIEnv*", "jint"] "jint",
  fn "AllocObject" ["JNIEnv*", "jclass"] "jobject",
  fn "NewObject" ["JNIEnv*", "jclass", "jmethodID", "..."] "jobject",
  fn "NewObjectV" ["JNIEnv*", "jclass", "jmethodID", "va_list"] "jobject",
  fn "NewObjectA" ["JNIEnv*", "jclass", "jmethodID", "jvalue*"] "jobject",
  fn "GetObjectClass" ["JNIEnv*", "jobject"] "jclass",
  fn "IsInstanceOf" ["JNIEnv*", "jobject", "jclass"] "jboolean",
  fn "GetMethodID" ["JNIEnv*", "jclass", "char*", "char*"] "jmethodID",
  fn "CallObjectMethod" ["JNIEnv*", "jobject", "jmethodID", "..."] "jobject",
  fn "CallObjectMethodV" ["JNIEnv*", "jobject", "jmethodID", "va_list"] "jobject",
  fn "CallObjectMethodA" ["JNIEnv*", "jobject", "jmethodID", "jvalue*"] "jobject",
  fn "CallBooleanMethod" ["JNIEnv*", "jobject", "jmethodID", "..."] "jboolean",
  fn "CallBooleanMethodV" ["JNIEnv*", "jobject", "jmethodID", "va_list"] "jboolean",
  fn "CallBooleanMethodA" ["JNIEnv*", "jobject", "jmethodID", "jvalue*"] "jboolean",
  fn "CallByteMethod" ["JNIEnv*", "jobject", "jmethodID", "..."] "jbyte",
  fn "CallByteMethodV" ["JNIEnv*", "jobject", "jmethodID", "va_list"] "jbyte",
  fn "CallByteMethodA" ["JNIEnv*", "jobject", "jmethodID", "jvalue*"] "jbyte",
  fn "CallCharMethod" ["JNIEnv*", "jobject", "jmethodID", "..."] "jchar",
  fn "CallCharMethodV" ["JNIEnv*", "jobject", "jmethodID", "va_list"] "jchar",
  fn "CallCharMethodA" ["JNIEnv*", "jobject", "jmethodID", "jvalue*"] "jchar",
  fn "CallShortMethod" ["JNIEnv*", "jobject", "jmethodID", "..."] "jshort",
  fn "CallShortMethodV" ["JNIEnv*", "jobject", "jmethodID", "va_list"] "jshort",
  fn "CallShortMethodA" ["JNIEnv*", "jobject", "jmethodID", "jvalue*"] "jshort",
  fn "CallIntMethod" ["JNIEnv*", "jobject", "jmethodID", "..."] "jint",
  fn "CallIntMethodV" ["JNIEnv*", "jobject", "jmethodID", "va_list"] "jint",
  fn "CallIntMethodA" ["JNIEnv*", "jobject", "jmethodID", "jvalue*"] "jint",
  fn "CallLongMethod" ["JNIEnv*", "jobject", "jmethodID", "..."] "jlong",
  fn "CallLongMethodV" ["JNIEnv*", "jobject", "jmethodID", "va_list"] "jlong",
  fn "CallLongMethodA" ["JNIEnv*", "jobject", "jmethodID", "jvalue*"] "jlong",
  fn "CallFloatMethod" ["JNIEnv*", "jobject", "jmethodID", "..."] "jfloat",
  fn "CallFloatMethodV" ["JNIEnv*", "jobject", "jmethodID", "va_list"] "jfloat",
  fn "CallFloatMethodA" ["JNIEnv*", "jobject", "jmethodID", "jvalue*"] "jfloat",
  fn "CallDoubleMethod" ["JNIEnv*", "jobject", "jmethodID", "..."] "jdouble",
  fn "CallDoubleMethodV" ["JNIEnv*", "jobject", "jmethodID", "va_list"] "jdouble",
  fn "CallDoubleMethodA" ["JNIEnv*", "jobject", "jmethodID", "jvalue*"] "jdouble",
  fn "CallVoidMethod" ["JNIEnv*", "jobject", "jmethodID", "..."] "void",
  fn "CallVoidMethodV" ["JNIEnv*", "jobject", "jmethodID", "va_list"] "void",
  fn "CallVoidMethodA" ["JNIEnv*", "jobject", "jmethodID", "jvalue*"] "void",
  fn "CallNonvirtualObjectMethod" ["JNIEnv*", "jobject", "jclass", "jmethodID", "..."] "jobject",
  fn "CallNonvirtualObjectMethodV" ["JNIEnv*",
    "jobject", "jclass", "jmethodID", "va_list"]
    "jobject",
  fn "CallNonvirtualObjectMethodA" ["JNIEnv*",
    "jobject", "jclass", "jmethodID", "jvalue*"]
    "jobject",
  fn "CallNonvirtualBooleanMethod" ["JNIEnv*", "jobject", "jclass", "jmethodID", "..."]
    "jboolean",
  fn "CallNonvirtualBooleanMethodV" ["JNIEnv*", "jobject", "jclass", "jmethodID", "va_list"]
    "jboolean",
  fn "CallNonvirtualBooleanMethodA" ["JNIEnv*", "jobject", "jclass", "jmethodID", "jvalue*"]
    "jboolean",
  fn "CallNonvirtualByteMethod" ["JNIEnv*", "jobject", "jclass", "jmethodID", "..."] "jbyte",
  fn "CallNonvirtualByteMethodV" ["JNIEnv*", "jobject", "jclass", "jmethodID", "va_list"]
    "jbyte",
  fn "CallNonvirtualByteMethodA" ["JNIEnv*", "jobject", "jclass", "jmethodID", "jvalue*"]
    "jbyte",
  fn "CallNonvirtualCharMethod" ["JNIEnv*", "jobject", "jclass", "jmethodID", "..."] "jchar",
  fn "CallNonvirtualCharMethodV" ["JNIEnv*", "jobject", "jclass", "jmethodID", "va_list"]
    "jchar",
  fn "CallNonvirtualCharMethodA" ["JNIEnv*", "jobject", "jclass", "jmethodID", "jvalue*"]
    "jchar",
  fn "CallNonvirtualShortMethod" ["JNIEnv*", "jobject", "jclass", "jmethodID", "..."] "jshort",
  fn "CallNonvirtualShortMethodV" ["JNIEnv*", "jobject", "jclass", "jmethodID", "va_list"]
    "jshort",
  fn "CallNonvirtualShortMethodA" ["JNIEnv*", "jobject", "jclass", "jmethodID", "jvalue*"]
    "jshort",
  fn "CallNonvirtualIntMethod" ["JNIEnv*", "jobject", "jclass", "jmethodID", "..."] "jint",
  fn "CallNonvirtualIntMethodV" ["JNIEnv*", "jobject", "jclass", "jmethodID", "va_list"] "jint",
  fn "CallNonvirtualIntMethodA" ["JNIEnv*", "jobject", "jclass", "jmethodID", "jvalue*"] "jint",
  fn "CallNonvirtualLongMethod" ["JNIEnv*", "jobject", "jclass", "jmethodID", "..."] "jlong",
  fn "CallNonvirtualLongMethodV" ["JNIEnv*", "jobject", "jclass", "jmethodID", "va_list"]
    "jlong",
  fn "CallNonvirtualLongMethodA" ["JNIEnv*", "jobject", "jclass", "jmethodID", "jvalue*"]
    "jlong",
  fn "CallNonvirtualFloatMethod" ["JNIEnv*", "jobject", "jclass", "jmethodID", "..."] "jfloat",
  fn "CallNonvirtualFloatMethodV" ["JNIEnv*", "jobject", "jclass", "jmethodID", "va_list"]
    "jfloat",
  fn "CallNonvirtualFloatMethodA" ["JNIEnv*", "jobject", "jclass", "jmethodID", "jvalue*"]
    "jfloat",
  fn "CallNonvirtualDoubleMethod" ["JNIEnv*", "jobject", "jclass", "jmethodID", "..."] "jdouble",
  fn "CallNonvirtualDoubleMethodV" ["JNIEnv*", "jobject", "jclass", "jmethodID", "va_list"]
    "jdouble",
  fn "CallNonvirtualDoubleMethodA" ["JNIEnv*", "jobject", "jclass", "jmethodID", "jvalue*"]
    "jdouble",
  fn "CallNonvirtualVoidMethod" ["JNIEnv*", "jobject", "jclass", "jmethodID", "..."] "void",
  fn "CallNonvirtualVoidMethodV" ["JNIEnv*", "jobject", "jclass", "jmethodID", "va_list"] "void",
  fn "CallNonvirtualVoidMethodA" ["JNIEnv*", "jobject", "jclass", "jmethodID", "jvalue*"] "void",
  fn "GetFieldID" ["JNIEnv*", "jclass", "char*", "char*"] "jfieldID",
  fn "GetObjectField" ["JNIEnv*", "jobject", "jfieldID"] "jobject",
  fn "GetBooleanField" ["JNIEnv*", "jobject", "jfieldID"] "jboolean",
  fn "GetByteField" ["JNIEnv*", "jobject", "jfieldID"] "jbyte",
  fn "GetCharField" ["JNIEnv*", "jobject", "jfieldID"] "jchar",
  fn "GetShortField" ["JNIEnv*", "jobject", "jfieldID"] "jshort",
  fn "GetIntField" ["JNIEnv*", "jobject", "jfieldID"] "jint",
  fn "GetLongField" ["JNIEnv*", "jobject", "jfieldID"] "jlong",
  fn "GetFloatField" ["JNIEnv*", "jobject", "jfieldID"] "jfloat",
  fn "GetDoubleField" ["JNIEnv*", "jobject", "jfieldID"] "jdouble",
  fn "SetObjectField" ["JNIEnv*", "jobject", "jfieldID", "jobject"] "void",
  fn "SetBooleanField" ["JNIEnv*", "jobject", "jfieldID", "jboolean"] "void",
  fn "SetByteField" ["JNIEnv*", "jobject", "jfieldID", "jbyte"] "void",
  fn "SetCharField" ["JNIEnv*", "jobject", "jfieldID", "jchar"] "void",
  fn "SetShortField" ["JNIEnv*", "jobject", "jfieldID", "jshort"] "void",
  fn "SetIntField" ["JNIEnv*", "jobject", "jfieldID", "jint"] "void",
  fn "SetLongField" ["JNIEnv*", "jobject", "jfieldID", "jlong"] "void",
  fn "SetFloatField" ["JNIEnv*", "jobject", "jfieldID", "jfloat"] "void",
  fn "SetDoubleField" ["JNIEnv*", "jobject", "jfieldID", "jdouble"] "void",
  fn "GetStaticMethodID" ["JNIEnv*", "jclass", "char*", "char*"] "jmethodID",
  fn "CallStaticObjectMethod" ["JNIEnv*", "jclass", "jmethodID", "..."] "jobject",
  fn "CallStaticObjectMethodV" ["JNIEnv*", "jclass", "jmethodID", "va_list"] "jobject",
  fn "CallStaticObjectMethodA" ["JNIEnv*", "jclass", "jmethodID", "jvalue*"] "jobject",
  fn "CallStaticBooleanMethod" ["JNIEnv*", "jclass", "jmethodID", "..."] "jboolean",
  fn "CallStaticBooleanMethodV" ["JNIEnv*", "jclass", "jmethodID", "va_list"] "jboolean",
  fn "CallStaticBooleanMethodA" ["JNIEnv*", "jclass", "jmethodID", "jvalue*"] "jboolean",
  fn "CallStaticByteMethod" ["JNIEnv*", "jclass", "jmethodID", "..."] "jbyte",
  fn "CallStaticByteMethodV" ["JNIEnv*", "jclass", "jmethodID", "va_list"] "jbyte",
  fn "CallStaticByteMethodA" ["JNIEnv*", "jclass", "jmethodID", "jvalue*"] "jbyte",
  fn "CallStaticCharMethod" ["JNIEnv*", "jclass", "jmethodID", "..."] "jchar",
  fn "CallStaticCharMethodV" ["JNIEnv*", "jclass", "jmethodID", "va_list"] "jchar",
  fn "CallStaticCharMethodA" ["JNIEnv*", "jclass", "jmethodID", "jvalue*"] "jchar",
  fn "CallStaticShortMethod" ["JNIEnv*", "jclass", "jmethodID", "..."] "jshort",
  fn "CallStaticShortMethodV" ["JNIEnv*", "jclass", "jmethodID", "va_list"] "jshort",
  fn "CallStaticShortMethodA" ["JNIEnv*", "jclass", "jmethodID", "jvalue*"] "jshort",
  fn "CallStaticIntMethod" ["JNIEnv*", "jclass", "jmethodID", "..."] "jint",
  fn "CallStaticIntMethodV" ["JNIEnv*", "jclass", "jmethodID", "va_list"] "jint",
  fn "CallStaticIntMethodA" ["JNIEnv*", "jclass", "jmethodID", "jvalue*"] "jint",
  fn "CallStaticLongMethod" ["JNIEnv*", "jclass", "jmethodID", "..."] "jlong",
  fn "CallStaticLongMethodV" ["JNIEnv*", "jclass", "jmethodID", "va_list"] "jlong",
  fn "CallStaticLongMethodA" ["JNIEnv*", "jclass", "jmethodID", "jvalue*"] "jlong",
  fn "CallStaticFloatMethod" ["JNIEnv*", "jclass", "jmethodID", "..."] "jfloat",
  fn "CallStaticFloatMethodV" ["JNIEnv*", "jclass", "jmethodID", "va_list"] "jfloat",
  fn "CallStaticFloatMethodA" ["JNIEnv*", "jclass", "jmethodID", "jvalue*"] "jfloat",
  fn "CallStaticDoubleMethod" ["JNIEnv*", "jclass", "jmethodID", "..."] "jdouble",
  fn "CallStaticDoubleMethodV" ["JNIEnv*", "jclass", "jmethodID", "va_list"] "jdouble",
  fn "CallStaticDoubleMethodA" ["JNIEnv*", "jclass", "jmethodID", "jvalue*"] "jdouble",
  fn "CallStaticVoidMethod" ["JNIEnv*", "jclass", "jmethodID", "..."] "void",
  fn "CallStaticVoidMethodV" ["JNIEnv*", "jclass", "jmethodID", "va_list"] "void",
  fn "CallStaticVoidMethodA" ["JNIEnv*", "jclass", "jmethodID", "jvalue*"] "void",
  fn "GetStaticFieldID" ["JNIEnv*", "jclass", "char*", "char*"] "jfieldID",
  fn "GetStaticObjectField" ["JNIEnv*", "jclass", "jfieldID"] "jobject",
  fn "GetStaticBooleanField" ["JNIEnv*", "jclass", "jfieldID"] "jboolean",
  fn "GetStaticByteField" ["JNIEnv*", "jclass", "jfieldID"] "jbyte",
  fn "GetStaticCharField" ["JNIEnv*", "jclass", "jfieldID"] "jchar",
  fn "GetStaticShortField" ["JNIEnv*", "jclass", "jfieldID"] "jshort",
  fn "GetStaticIntField" ["JNIEnv*", "jclass", "jfieldID"] "jint",
  fn "GetStaticLongField" ["JNIEnv*", "jclass", "jfieldID"] "jlong",
  fn "GetStaticFloatField" ["JNIEnv*", "jclass", "jfieldID"] "jfloat",
  fn "GetStaticDoubleField" ["JNIEnv*", "jclass", "jfieldID"] "jdouble",
  fn "SetStaticObjectField" ["JNIEnv*", "jclass", "jfieldID", "jobject"] "void",
  fn "SetStaticBooleanField" ["JNIEnv*", "jclass", "jfieldID", "jboolean"] "void",
  fn "SetStaticByteField" ["JNIEnv*", "jclass", "jfieldID", "jbyte"] "void",
  fn "SetStaticCharField" ["JNIEnv*", "jclass", "jfieldID", "jchar"] "void",
  fn "SetStaticShortField" ["JNIEnv*", "jclass", "jfieldID", "jshort"] "void",
  fn "SetStaticIntField" ["JNIEnv*", "jclass", "jfieldID", "jint"] "void",
  fn "SetStaticLongField" ["JNIEnv*", "jclass", "jfieldID", "jlong"] "void",
  fn "SetStaticFloatField" ["JNIEnv*", "jclass", "jfieldID", "jfloat"] "void",
  fn "SetStaticDoubleField" ["JNIEnv*", "jclass", "jfieldID", "jdouble"] "void",
  fn "NewString" ["JNIEnv*", "jchar*", "jsize"] "jstring",
  fn "GetStringLength" ["JNIEnv*", "jstring"] "jsize",
  fn "GetStringChars" ["JNIEnv*", "jstring", "jboolean*"] "jchar*",
  fn "ReleaseStringChars" ["JNIEnv*", "jstring", "jchar*"] "void",
  fn "NewStringUTF" ["JNIEnv*", "char*"] "jstring",
  fn "GetStringUTFLength" ["JNIEnv*", "jstring"] "jsize",
  fn "GetStringUTFChars" ["JNIEnv*", "jstring", "jboolean*"] "char*",
  fn "ReleaseStringUTFChars" ["JNIEnv*", "jstring", "char*"] "void",
  fn "GetArrayLength" ["JNIEnv*", "jarray"] "jsize",
  fn "NewObjectArray" ["JNIEnv*", "jsize", "jclass", "jobject"] "jobjectArray",
  fn "GetObjectArrayElement" ["JNIEnv*", "jobjectArray", "jsize"] "jobject",
  fn "SetObjectArrayElement" ["JNIEnv*", "jobjectArray", "jsize", "jobject"] "void",
  fn "NewBooleanArray" ["JNIEnv*", "jsize"] "jbooleanArray",
  fn "NewByteArray" ["JNIEnv*", "jsize"] "jbyteArray",
  fn "NewCharArray" ["JNIEnv*", "jsize"] "jcharArray",
  fn "NewShortArray" ["JNIEnv*", "jsize"] "jshortArray",
  fn "NewIntArray" ["JNIEnv*", "jsize"] "jintArray",
  fn "NewLongArray" ["JNIEnv*", "jsize"] "jlongArray",
  fn "NewFloatArray" ["JNIEnv*", "jsize"] "jfloatArray",
  fn "NewDoubleArray" ["JNIEnv*", "jsize"] "jdoubleArray",
  fn "GetBooleanArrayElements" ["JNIEnv*", "jbooleanArray", "jboolean*"] "jboolean*",
  fn "GetByteArrayElements" ["JNIEnv*", "jbyteArray", "jboolean*"] "jbyte*",
  fn "GetCharArrayElements" ["JNIEnv*", "jcharArray", "jboolean*"] "jchar*",
  fn "GetShortArrayElements" ["JNIEnv*", "jshortArray", "jboolean*"] "jshort*",
  fn "GetIntArrayElements" ["JNIEnv*", "jintArray", "jboolean*"] "jint*",
  fn "GetLongArrayElements" ["JNIEnv*", "jlongArray", "jboolean*"] "jlong*",
  fn "GetFloatArrayElements" ["JNIEnv*", "jfloatArray", "jboolean*"] "jfloat*",
  fn "GetDoubleArrayElements" ["JNIEnv*", "jdoubleArray", "jboolean*"] "jdouble*",
  fn "ReleaseBooleanArrayElements" ["JNIEnv*", "jbooleanArray", "jboolean*", "jint"] "void",
  fn "ReleaseByteArrayElements" ["JNIEnv*", "jbyteArray", "jbyte*", "jint"] "void",
  fn "ReleaseCharArrayElements" ["JNIEnv*", "jcharArray", "jchar*", "jint"] "void",
  fn "ReleaseShortArrayElements" ["JNIEnv*", "jshortArray", "jshort*", "jint"] "void",
  fn "ReleaseIntArrayElements" ["JNIEnv*", "jintArray", "jint*", "jint"] "void",
  fn "ReleaseLongArrayElements" ["JNIEnv*", "jlongArray", "jlong*", "jint"] "void",
  fn "ReleaseFloatArrayElements" ["JNIEnv*", "jfloatArray", "jfloat*", "jint"] "void",
  fn "ReleaseDoubleArrayElements" ["JNIEnv*", "jdoubleArray", "jdouble*", "jint"] "void",
  fn "GetBooleanArrayRegion" ["JNIEnv*", "jbooleanArray", "jsize", "jsize", "jboolean*"] "void",
  fn "GetByteArrayRegion" ["JNIEnv*", "jbyteArray", "jsize", "jsize", "jbyte*"] "void",
  fn "GetCharArrayRegion" ["JNIEnv*", "jcharArray", "jsize", "jsize", "jchar*"] "void",
  fn "GetShortArrayRegion" ["JNIEnv*", "jshortArray", "jsize", "jsize", "jshort*"] "void",
  fn "GetIntArrayRegion" ["JNIEnv*", "jintArray", "jsize", "jsize", "jint*"] "void",
  fn "GetLongArrayRegion" ["JNIEnv*", "jlongArray", "jsize", "jsize", "jlong*"] "void",
  fn "GetFloatArrayRegion" ["JNIEnv*", "jfloatArray", "jsize", "jsize", "jfloat*"] "void",
  fn "GetDoubleArrayRegion" ["JNIEnv*", "jdoubleArray", "jsize", "jsize", "jdouble*"] "void",
  fn "SetBooleanArrayRegion" ["JNIEnv*", "jbooleanArray", "jsize", "jsize", "jboolean*"] "void",
  fn "SetByteArrayRegion" ["JNIEnv*", "jbyteArray", "jsize", "jsize", "jbyte*"] "void",
  fn "SetCharArrayRegion" ["JNIEnv*", "jcharArray", "jsize", "jsize", "jchar*"] "void",
  fn "SetShortArrayRegion" ["JNIEnv*", "jshortArray", "jsize", "jsize", "jshort*"] "void",
  fn "SetIntArrayRegion" ["JNIEnv*", "jintArray", "jsize", "jsize", "jint*"] "void",
  fn "SetLongArrayRegion" ["JNIEnv*", "jlongArray", "jsize", "jsize", "jlong*"] "void",
  fn "SetFloatArrayRegion" ["JNIEnv*", "jfloatArray", "jsize", "jsize", "jfloat*"] "void",
  fn "SetDoubleArrayRegion" ["JNIEnv*", "jdoubleArray", "jsize", "jsize", "jdouble*"] "void",
  fn "RegisterNatives" ["JNIEnv*", "jclass", "JNINativeMethod*", "jint"] "jint",
  fn "UnregisterNatives" ["JNIEnv*", "jclass"] "jint",
  fn "MonitorEnter" ["JNIEnv*", "jobject"] "jint",
  fn "MonitorExit" ["JNIEnv*", "jobject"] "jint",
  fn "GetJavaVM" ["JNIEnv*", "JavaVM**"] "jint",
  fn "GetStringRegion" ["JNIEnv*", "jstring", "jsize", "jsize", "jchar*"] "void",
  fn "GetStringUTFRegion" ["JNIEnv*", "jstring", "jsize", "jsize", "char*"] "void",
  fn "GetPrimitiveArrayCritical" ["JNIEnv*", "jarray", "jboolean*"] "void",
  fn "ReleasePrimitiveArrayCritical" ["JNIEnv*", "jarray", "void*", "jint"] "void",
  fn "GetStringCritical" ["JNIEnv*", "jstring", "jboolean*"] "jchar",
  fn "ReleaseStringCritical" ["JNIEnv*", "jstring", "jchar*"] "void",
  fn "NewWeakGlobalRef" ["JNIEnv*", "jobject"] "jweak",
  fn "DeleteWeakGlobalRef" ["JNIEnv*", "jweak"] "void",
  fn "ExceptionCheck" ["JNIEnv*"] "jboolean",
  fn "NewDirectByteBuffer" ["JNIEnv*", "void*", "jlong"] "jobject",
  fn "GetDirectBufferAddress" ["JNIEnv*", "jobject"] "void",
  fn "GetDirectBufferCapacity" ["JNIEnv*", "jobject"] "jlong",
  fn "GetObjectRefType" ["JNIEnv*", "jobject"] "jobjectRefType"]

def jniNames : List Bytes := [
  "reserved0", "reserved1", "reserved2", "reserved3", "GetVersion", "DefineClass", "FindClass",
  "FromReflectedMethod", "FromReflectedField", "ToReflectedMethod", "GetSuperclass",
  "IsAssignableFrom", "ToReflectedField", "Throw", "ThrowNew", "ExceptionOccurred",
  "ExceptionDescribe", "ExceptionClear", "FatalError", "PushLocalFrame", "PopLocalFrame",
  "NewGlobalRef", "DeleteGlobalRef", "DeleteLocalRef", "IsSameObject", "NewLocalRef",
  "EnsureLocalCapacity", "AllocObject", "NewObject", "NewObjectV", "NewObjectA", "GetObjectClass",
  "IsInstanceOf", "GetMethodID", "CallObjectMethod", "CallObjectMethodV", "CallObjectMethodA",
  "CallBooleanMethod", "CallBooleanMethodV", "CallBooleanMethodA", "CallByteMethod",
  "CallByteMethodV", "CallByteMethodA", "CallCharMethod", "CallCharMethodV", "CallCharMethodA",
  "CallShortMethod", "CallShortMethodV", "CallShortMethodA", "CallIntMethod", "CallIntMethodV",
  "CallIntMethodA", "CallLongMethod", "CallLongMethodV", "CallLongMethodA", "CallFloatMethod",
  "CallFloatMethodV", "CallFloatMethodA", "CallDoubleMethod", "CallDoubleMethodV",
  "CallDoubleMethodA", "CallVoidMethod", "CallVoidMethodV", "CallVoidMethodA",
  "CallNonvirtualObjectMethod", "CallNonvirtualObjectMethodV", "CallNonvirtualObjectMethodA",
  "CallNonvirtualBooleanMethod", "CallNonvirtualBooleanMethodV", "CallNonvirtualBooleanMethodA",
  "CallNonvirtualByteMethod", "CallNonvirtualByteMethodV", "CallNonvirtualByteMethodA",
  "CallNonvirtualCharMethod", "CallNonvirtualCharMethodV", "CallNonvirtualCharMethodA",
  "CallNonvirtualShortMethod", "CallNonvirtualShortMethodV", "CallNonvirtualShortMethodA",
  "CallNonvirtualIntMethod", "CallNonvirtualIntMethodV", "CallNonvirtualIntMethodA",
  "CallNonvirtualLongMethod", "CallNonvirtualLongMethodV", "CallNonvirtualLongMethodA",
  "CallNonvirtualFloatMethod", "CallNonvirtualFloatMethodV", "CallNonvirtualFloatMethodA",
  "CallNonvirtualDoubleMethod", "CallNonvirtualDoubleMethodV", "CallNonvirtualDoubleMethodA",
  "CallNonvirtualVoidMethod", "CallNonvirtualVoidMethodV", "CallNonvirtualVoidMethodA",
  "GetFieldID", "GetObjectField", "GetBooleanField", "GetByteField", "GetCharField",
  "GetShortField", "GetIntField", "GetLongField", "GetFloatField", "GetDoubleField",
  "SetObjectField", "SetBooleanField", "SetByteField", "SetCharField", "SetShortField",
  "SetIntField", "SetLongField", "SetFloatField", "SetDoubleField", "GetStaticMethodID",
  "CallStaticObjectMethod", "CallStaticObjectMethodV", "CallStaticObjectMethodA",
  "CallStaticBooleanMethod", "CallStaticBooleanMethodV", "CallStaticBooleanMethodA",
  "CallStaticByteMethod", "CallStaticByteMethodV", "CallStaticByteMethodA", "CallStaticCharMethod",
  "CallStaticCharMethodV", "CallStaticCharMethodA", "CallStaticShortMethod",
  "CallStaticShortMethodV", "CallStaticShortMethodA", "CallStaticIntMethod", "CallStaticIntMethodV",
  "CallStaticIntMethodA", "CallStaticLongMethod", "CallStaticLongMethodV", "CallStaticLongMethodA",
  "CallStaticFloatMethod", "CallStaticFloatMethodV", "CallStaticFloatMethodA",
  "CallStaticDoubleMethod", "CallStaticDoubleMethodV", "CallStaticDoubleMethodA",
  "CallStaticVoidMethod", "CallStaticVoidMethodV", "CallStaticVoidMethodA", "GetStaticFieldID",
  "GetStaticObjectField", "GetStaticBooleanField", "GetStaticByteField", "GetStaticCharField",
  "GetStaticShortField", "GetStaticIntField", "GetStaticLongField", "GetStaticFloatField",
  "GetStaticDoubleField", "SetStaticObjectField", "SetStaticBooleanField", "SetStaticByteField",
  "SetStaticCharField", "SetStaticShortField", "SetStaticIntField", "SetStaticLongField",
  "SetStaticFloatField", "SetStaticDoubleField", "NewString", "GetStringLength", "GetStringChars",
  "ReleaseStringChars", "NewStringUTF", "GetStringUTFLength", "GetStringUTFChars",
  "ReleaseStringUTFChars", "GetArrayLength", "NewObjectArray", "GetObjectArrayElement",
  "SetObjectArrayElement", "NewBooleanArray", "NewByteArray", "NewCharArray", "NewShortArray",
  "NewIntArray", "NewLongArray", "NewFloatArray", "NewDoubleArray", "GetBooleanArrayElements",
  "GetByteArrayElements", "GetCharArrayElements", "GetShortArrayElements", "GetIntArrayElements",
  "GetLongArrayElements", "GetFloatArrayElements", "GetDoubleArrayElements",
  "ReleaseBooleanArrayElements", "ReleaseByteArrayElements", "ReleaseCharArrayElements",
  "ReleaseShortArrayElements", "ReleaseIntArrayElements", "ReleaseLongArrayElements",
  "ReleaseFloatArrayElements", "ReleaseDoubleArrayElements", "GetBooleanArrayRegion",
  "GetByteArrayRegion", "GetCharArrayRegion", "GetShortArrayRegion", "GetIntArrayRegion",
  "GetLongArrayRegion", "GetFloatArrayRegion", "GetDoubleArrayRegion", "SetBooleanArrayRegion",
  "SetByteArrayRegion", "SetCharArrayRegion", "SetShortArrayRegion", "SetIntArrayRegion",
  "SetLongArrayRegion", "SetFloatArrayRegion", "SetDoubleArrayRegion", "RegisterNatives",
  "UnregisterNatives", "MonitorEnter", "MonitorExit", "GetJavaVM", "GetStringRegion",
  "GetStringUTFRegion", "GetPrimitiveArrayCritical", "ReleasePrimitiveArrayCritical",
  "GetStringCritical", "ReleaseStringCritical", "NewWeakGlobalRef", "DeleteWeakGlobalRef",
  "ExceptionCheck", "NewDirectByteBuffer", "GetDirectBufferAddress", "GetDirectBufferCapacity",
  "GetObjectRefType"].map str

end JniProbe
