import MeasuredBoot.Basic
import MeasuredBoot.Register
import MeasuredBoot.Cel.Tlv
import MeasuredBoot.Cel.Core
import MeasuredBoot.Cel.Replay
import MeasuredBoot.Cel.Append
import MeasuredBoot.Cel.Codec
import MeasuredBoot.Cel.Layout
import MeasuredBoot.Cel.Verify
import MeasuredBoot.Extract.State
import MeasuredBoot.Extract.Scan
import MeasuredBoot.Extract.Platform
import MeasuredBoot.Extract.Grub
import MeasuredBoot.Extract.Efi
import MeasuredBoot.Extract.EfiLog
import MeasuredBoot.Extract.Firmware
