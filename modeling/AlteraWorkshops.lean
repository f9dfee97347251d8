import AlteraWorkshops.Clocked.Trace
import AlteraWorkshops.Clocked.Latch
import AlteraWorkshops.Clocked.Delay
import AlteraWorkshops.Shared.Cursor
import AlteraWorkshops.Text.Numeral
import AlteraWorkshops.Text.Search
import AlteraWorkshops.OneAi.Interface
import AlteraWorkshops.OneAi.PixelEdge
import AlteraWorkshops.OneAi.PixelPhases
import AlteraWorkshops.OneAi.WordCapture
import AlteraWorkshops.OneAi.FrameWords
import AlteraWorkshops.OneAi.FrameRead
import AlteraWorkshops.OneAi.FrameEvents
import AlteraWorkshops.OneAi.SlaveEdge
import AlteraWorkshops.OneAi.ResultReady
import AlteraWorkshops.OneAi.Registers
import AlteraWorkshops.OneAi.Methods
import AlteraWorkshops.OneAi.Transfers
import AlteraWorkshops.OneAi.Clients
import AlteraWorkshops.Status.Report
import AlteraWorkshops.Status.Polling
import AlteraWorkshops.Camera.RegisterTable
import AlteraWorkshops.Camera.Firmware
import AlteraWorkshops.Camera.Upload
import AlteraWorkshops.ImageSource.Block
import AlteraWorkshops.ImageSource.Pulse
import AlteraWorkshops.ImageSource.Status
import AlteraWorkshops.Status.Parsing
import AlteraWorkshops.OneAi.Triggers
import AlteraWorkshops.Lab.PulseFrames
import AlteraWorkshops.Gui.App
import AlteraWorkshops.Gui.Display
import AlteraWorkshops.OneAi.SharedBuffer
import AlteraWorkshops.Clocked.Issue
import AlteraWorkshops.Lab.PaintImport
import AlteraWorkshops.Lab.CameraRing
import AlteraWorkshops.OneAi.Inferences
import AlteraWorkshops.Clocked.Gated
import AlteraWorkshops.TimingClosure.Designs
import AlteraWorkshops.TimingClosure.Refinement
import AlteraWorkshops.Uart.Transmitter
import AlteraWorkshops.Uart.Baud
import AlteraWorkshops.Uart.Framing
import AlteraWorkshops.Blocks.Tiling
import AlteraWorkshops.FpgaAi.PostProcessing
import AlteraWorkshops.Effects.Script
import AlteraWorkshops.FpgaAi.SystemConsole
import AlteraWorkshops.FpgaAi.Transfers
import AlteraWorkshops.FpgaAi.OutputSize
import AlteraWorkshops.FpgaAi.Descriptors
import AlteraWorkshops.FpgaAi.Partitions
import AlteraWorkshops.FpgaAi.FunctionalRun
import AlteraWorkshops.Sensor.ModeTable
import AlteraWorkshops.Sensor.Bus
import AlteraWorkshops.Sensor.Initialization
import AlteraWorkshops.Sensor.Exposure
import AlteraWorkshops.Sensor.SystemStatus
import AlteraWorkshops.Text.Reading
import AlteraWorkshops.Sensor.Printers
import AlteraWorkshops.Clocked.Windows
import AlteraWorkshops.ImageSource.Duty
import AlteraWorkshops.FpgaAi.Shapes
import AlteraWorkshops.Loops.Machine
import AlteraWorkshops.Tcl.Strings
import AlteraWorkshops.FpgaAi.Arguments
import AlteraWorkshops.FpgaAi.ShapeCapture
import AlteraWorkshops.FpgaAi.OptionSyntax
import AlteraWorkshops.FpgaAi.ShapeText
import AlteraWorkshops.Numbers.Rounding
import AlteraWorkshops.OneAi.PixelSpacing
import AlteraWorkshops.Tcl.Numbers
import AlteraWorkshops.FpgaAi.InferenceCount
import AlteraWorkshops.Numbers.WeightedMean
import AlteraWorkshops.Raster.Image
import AlteraWorkshops.FpgaAi.Centering
import AlteraWorkshops.Raster.Slices
import AlteraWorkshops.FpgaAi.Shift
import AlteraWorkshops.Raster.BoundingBox
import AlteraWorkshops.FpgaAi.Converter
import AlteraWorkshops.FpgaAi.Invariance
import AlteraWorkshops.Raster.Painting
import AlteraWorkshops.Gui.PaintBuffer
import AlteraWorkshops.Status.PollInterval
import AlteraWorkshops.Gui.ConsoleProcess
import AlteraWorkshops.Gui.Capture
import AlteraWorkshops.Gui.Watchdog
import AlteraWorkshops.Numbers.Signed
import AlteraWorkshops.Cnn.Package
import AlteraWorkshops.Cnn.Rounding
import AlteraWorkshops.Cnn.Delivery
import AlteraWorkshops.Cnn.RowExpander
import AlteraWorkshops.Cnn.Expansion
import AlteraWorkshops.Cnn.PixelInput
import AlteraWorkshops.Cnn.Filters
import AlteraWorkshops.Cnn.FilterStream
import AlteraWorkshops.Cnn.FrontEnd
import AlteraWorkshops.Cnn.NormalizeImages
import AlteraWorkshops.Clocked.ReadModifyWrite
import AlteraWorkshops.Numbers.Digits
import AlteraWorkshops.Cnn.Neuron
import AlteraWorkshops.Cnn.NeuronSums
import AlteraWorkshops.Cnn.Overflow
import AlteraWorkshops.Cnn.Mac
import AlteraWorkshops.Cnn.MacRun
import AlteraWorkshops.Cnn.OutStage
import AlteraWorkshops.Cnn.NnLayer
import AlteraWorkshops.Cnn.NnLayerRun
import AlteraWorkshops.Cnn.OutPosition
import AlteraWorkshops.Cnn.Convolution
import AlteraWorkshops.Cnn.ConvolutionRun
import AlteraWorkshops.Cnn.RowBuffer
import AlteraWorkshops.Cnn.MatrixCounters
import AlteraWorkshops.Cnn.RowMemory
import AlteraWorkshops.Cnn.ImageWindows
import AlteraWorkshops.Cnn.Layer
import AlteraWorkshops.Cnn.ExpandedLayer
import AlteraWorkshops.Cnn.Pooling
import AlteraWorkshops.Cnn.PoolingRun
import AlteraWorkshops.Cnn.StridedLayer
import AlteraWorkshops.Cnn.FirstBlock
import AlteraWorkshops.Cnn.InputImage
import AlteraWorkshops.Cnn.InferenceRead
